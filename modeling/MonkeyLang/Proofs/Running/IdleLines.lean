import MonkeyLang.Proofs.Running.Rounds

/-!
# Idle lines

A line is idle if it is blank, if it is a command that does not end the loop, or if it does not
compile (`Repl.Line.idle_ofTrimmed_iff`).  It changes nothing but what is shown, and so nothing else
in a session depends on it (`Repl.idle_lines_leave_no_trace`).

Two sessions are compared: one with the line and one without.  Their inputs begin with the same
whole lines, so they go through the same rounds as long as these last
(`Repl.State.Reaches.beside`).  Then the first session takes the idle line, and now the inputs are
the same (`Repl.State.Beside.of_idle`), and so are all rounds that follow (`Repl.State.Plays.beside`).
-/

namespace MonkeyLang

namespace Repl

/-! ## Lines by their texts -/

namespace Line

variable {text : String}

/-- The commands that end a session. -/
def quitCommands : List String := [":quit", ":q", ":exit"]

/-- Without a backspace, a line is what it says between the blanks at its ends. -/
theorem ofString_of_notMem (h : Text.backspace ∉ text.toList) :
    ofString text = ofTrimmed (Text.trim text) := by
  rw [ofString, Text.typed_of_notMem h]
  dsimp only
  rw [String.ofList_toList]

/-- A session ends at these words and no others. -/
theorem ofTrimmed_eq_quit_iff : ofTrimmed text = quit ↔ text ∈ quitCommands := by
  constructor
  · intro h
    unfold ofTrimmed at h
    split at h
    case h_2 | h_3 | h_4 => decide
    case h_10 => split at h <;> cases h
    all_goals cases h
  · intro h
    simp only [quitCommands, List.mem_cons, List.not_mem_nil, or_false] at h
    rcases h with rfl | rfl | rfl <;> rfl

/-- Of the lines that do not quit, those are idle that say nothing, that begin with a colon, or that
do not compile. -/
theorem idle_ofTrimmed_iff : (ofTrimmed text).idle ↔
    text ∉ quitCommands ∧ (text = "" ∨ text.startsWith ":" ∨ ∃ e, compile text = .error e) := by
  by_cases hquit : text ∈ quitCommands
  · rw [ofTrimmed_eq_quit_iff.2 hquit]
    exact iff_of_false Bool.false_ne_true fun h => h.1 hquit
  rw [and_iff_right hquit]
  unfold ofTrimmed
  split
  case h_1 => exact iff_of_true rfl (.inl rfl)
  case h_2 | h_3 | h_4 => exact absurd (by decide) hquit
  case h_5 | h_6 | h_7 | h_8 | h_9 => exact iff_of_true rfl (.inr (.inl (by decide +kernel)))
  case h_10 hne _ _ _ _ _ _ _ _ =>
    split
    · next hcolon => exact iff_of_true rfl (.inr (.inl hcolon))
    · next hcolon =>
      -- a source: neither empty nor a command
      rw [or_iff_right fun h => hne h, or_iff_right hcolon, idle]
      cases compile text with
      | error e => exact iff_of_true rfl ⟨e, rfl⟩
      | ok p => exact iff_of_false Bool.false_ne_true (by rintro ⟨_, ⟨⟩⟩)

end Line

namespace State

variable {s s' t : State} {ss : List State}

/-! ## Two sessions -/

/-- The machines are the same but for what is unread, and since the first two states the same has
been shown. -/
structure Beside (unread unread' : List Char) (a a' s s' : State) : Prop where
  machine : s.machine.Alike (Terminal.Beside unread unread' a.stdout a'.stdout) s'.machine
  stderr : ∃ text, s.stderr = a.stderr ++ text ∧ s'.stderr = a'.stderr ++ text

namespace Beside

variable {unread unread' : List Char} {a a' s s' : State}

/-- Nothing has been shown since. -/
theorem start (hheap : s.machine.heap = s'.machine.heap)
    (hscopes : s.machine.scopes = s'.machine.scopes)
    (hended : s.machine.console.ended = s'.machine.console.ended) {text : List Char}
    (hunread : s.unread = text ++ unread) (hunread' : s'.unread = text ++ unread')
    (htext : unread ≠ [] → WholeLines text) : Beside unread unread' s s' s s' where
  machine := ⟨hheap, hscopes, ⟨text, hunread, hunread', htext⟩,
    ⟨"", String.append_empty.symm, String.append_empty.symm⟩, hended⟩
  stderr := ⟨"", String.append_empty.symm, String.append_empty.symm⟩

/-- The input is the same. -/
theorem start_of_unread_eq (hheap : s.machine.heap = s'.machine.heap)
    (hscopes : s.machine.scopes = s'.machine.scopes)
    (hended : s.machine.console.ended = s'.machine.console.ended) (hunread : s.unread = s'.unread) :
    Beside [] [] s s' s s' :=
  start hheap hscopes hended (List.append_nil _).symm
    (hunread.symm.trans (List.append_nil _).symm) fun hne => absurd rfl hne

/-- From here on, nothing has been shown yet. -/
theorem here (h : Beside unread unread' a a' s s') : Beside unread unread' s s' s s' := by
  obtain ⟨text, hunread, hunread', htext⟩ := h.machine.console.stdin
  exact start h.machine.heap h.machine.scopes h.machine.console.ended hunread hunread' htext

theorem print (h : Beside unread unread' a a' s s') (text : String) :
    Beside unread unread' a a' (s.print text) (s'.print text) where
  machine := ⟨h.machine.heap, h.machine.scopes, h.machine.console.write text⟩
  stderr := h.stderr

theorem complain (h : Beside unread unread' a a' s s') (text : String) :
    Beside unread unread' a a' (s.complain text) (s'.complain text) where
  machine := h.machine
  stderr := by
    obtain ⟨before, herr, herr'⟩ := h.stderr
    refine ⟨before ++ text, ?_, ?_⟩
    · rw [State.complain, herr, String.append_assoc]
    · rw [State.complain, herr', String.append_assoc]

/-- What has been added to the output is the same in both. -/
theorem added_stdout (h : Beside unread unread' a a' s s') :
    added a.stdout s.stdout = added a'.stdout s'.stdout := by
  obtain ⟨text, hout, hout'⟩ := h.machine.console.stdout
  show added a.stdout s.machine.console.stdout = added a'.stdout s'.machine.console.stdout
  rw [hout, hout', added_append, added_append]

theorem added_stderr (h : Beside unread unread' a a' s s') :
    added a.stderr s.stderr = added a'.stderr s'.stderr := by
  obtain ⟨text, herr, herr'⟩ := h.stderr
  rw [herr, herr', added_append, added_append]

variable (hnil : unread = [] → unread' = [])

include hnil

/-- Both take the same line, unless it is one of those that are left out. -/
theorem take (h : Beside unread unread' a a' s s') (hlen : unread.length ≤ s.take.2.unread.length) :
    s.take.1 = s'.take.1 ∧ Beside unread unread' a a' s.take.2 s'.take.2 := by
  obtain ⟨hline, hconsole⟩ := h.machine.console.readLine hnil none hlen
  exact ⟨hline, ⟨h.machine.heap, h.machine.scopes, hconsole⟩, h.stderr⟩

/-- A source has the same result in both sessions, and the same happens on the consoles. -/
theorem runLine (h : Beside unread unread' a a' s s') {text : String}
    (hlen : unread.length ≤ (s.runLine text).unread.length) :
    (s.machine.runSource text).1 = (s'.machine.runSource text).1 ∧
      s.machine.eventsOf text = s'.machine.eventsOf text ∧
      Beside unread unread' a a' (s.runLine text) (s'.runLine text) := by
  rw [runLine_eq] at hlen
  obtain ⟨hresult, hevents, hmachine⟩ := h.machine.runSource_beside hnil hlen
  have hreply : replyTo (s.machine.runSource text).2.heap (s.machine.runSource text).1 =
      replyTo (s'.machine.runSource text).2.heap (s'.machine.runSource text).1 := by
    rw [hresult, hmachine.heap]
  have hrun : Beside unread unread' a a' { s with machine := (s.machine.runSource text).2 }
      { s' with machine := (s'.machine.runSource text).2 } := ⟨hmachine, h.stderr⟩
  refine ⟨hresult, hevents, ?_⟩
  rw [runLine_eq, runLine_eq]
  dsimp only
  rw [hreply]
  exact (hrun.print _).complain _

/-- The same line does the same in both sessions. -/
theorem step (h : Beside unread unread' a a' s s') (l : Line)
    (hlen : ∀ t, s.step l = .ok t → unread.length ≤ t.unread.length) :
    (∃ e, s.step l = .error e ∧ s'.step l = .error e) ∨
      ∃ t t', s.step l = .ok t ∧ s'.step l = .ok t' ∧ Beside unread unread' a a' t t' := by
  rcases line_cases l with hidle | ⟨e, hend⟩ | ⟨text, rfl⟩
  · obtain ⟨out, err, hstep⟩ := step_of_idle hidle
    exact .inr ⟨_, _, hstep s, hstep s', (h.print out).complain err⟩
  · exact .inl ⟨e, hend s, hend s'⟩
  · exact .inr ⟨_, _, rfl, rfl, (h.runLine hnil (hlen _ rfl)).2.2⟩

theorem outcome (h : Beside unread unread' a a' s s') (l : Line)
    (hlen : ∀ t, s.step l = .ok t → unread.length ≤ t.unread.length) :
    l.result? s.machine = l.result? s'.machine ∧ l.events s.machine = l.events s'.machine := by
  cases l with
  | source text =>
    obtain ⟨hresult, hevents, -⟩ := h.runLine hnil (hlen _ rfl)
    exact ⟨congrArg some hresult, hevents⟩
  | _ => exact ⟨rfl, rfl⟩

/-- Sessions that are beside each other go through the same round, unless the first one comes to
what is unread. -/
theorem round (h : Beside unread unread' a a' s s')
    (hlen : unread.length ≤ s.round.2.unread.length) :
    s.round.1 = s'.round.1 ∧ s.entry = s'.entry ∧
      Beside unread unread' s s' s.round.2 s'.round.2 := by
  have htaken : unread.length ≤ s.take.2.unread.length := by
    have hle := s.take_later_round.length_le
    omega
  obtain ⟨hline, htake⟩ := h.here.take hnil htaken
  have hline? : s.line? = s'.line? := congrArg (Option.map Line.ofString) hline
  suffices hround : s.round.1 = s'.round.1 ∧ Beside unread unread' s s' s.round.2 s'.round.2 ∧
      s.line?.bind (Line.result? s.take.2.machine) =
        s.line?.bind (Line.result? s'.take.2.machine) ∧
      s.line?.map (Line.events s.take.2.machine) =
        s.line?.map (Line.events s'.take.2.machine) by
    obtain ⟨hend, hbeside, hresult, hevents⟩ := hround
    refine ⟨hend, ?_, hbeside⟩
    rw [entry, entry, hresult, hevents, hline?, hbeside.added_stdout, hbeside.added_stderr]
  cases hs : s.take.1 with
  | none =>
    rw [round_of_take_none hs, round_of_take_none (hline.symm.trans hs), line?, hs]
    exact ⟨rfl, htake.print _, rfl, rfl⟩
  | some line =>
    have hs' : s'.take.1 = some line := hline.symm.trans hs
    have hlen' (t : State) (ht : s.take.2.step (.ofString line) = .ok t) :
        unread.length ≤ t.unread.length := by
      rw [round_of_step_ok hs ht] at hlen
      exact hlen
    obtain ⟨hresult, hevents⟩ := htake.outcome hnil (.ofString line) hlen'
    rcases htake.step hnil (.ofString line) hlen' with
      ⟨e, hstep, hstep'⟩ | ⟨t, t', hstep, hstep', hbeside⟩
    · rw [round_of_step_error hs hstep, round_of_step_error hs' hstep', line?, hs]
      exact ⟨rfl, htake.print _, hresult, congrArg some hevents⟩
    · rw [round_of_step_ok hs hstep, round_of_step_ok hs' hstep', line?, hs]
      exact ⟨rfl, hbeside, hresult, congrArg some hevents⟩

end Beside

/-- Two sessions go through the same rounds up to where the first one comes to what is unread. -/
theorem Reaches.beside {unread unread' : List Char} (hnil : unread = [] → unread' = [])
    (h : s.Reaches ss t) (hs : Beside unread unread' s s' s s')
    (hlen : unread.length ≤ t.unread.length) :
    ∃ ss' t', s'.Reaches ss' t' ∧ ss'.map entry = ss.map entry ∧
      Beside unread unread' t t' t t' := by
  induction h generalizing s' with
  | refl s => exact ⟨[], s', .refl s', rfl, hs⟩
  | @round s t ss hround hrest ih =>
    have hlen' : unread.length ≤ s.round.2.unread.length := by
      have hle := hrest.later.length_le
      omega
    obtain ⟨hend, hentry, hbeside⟩ := hs.round hnil hlen'
    obtain ⟨ss', t', hreaches, hentries, ht⟩ := ih hbeside.here hlen
    refine ⟨s' :: ss', t', .round (hend.symm.trans hround) hreaches, ?_, ht⟩
    rw [List.map_cons, List.map_cons, hentries, hentry]

/-- Two sessions that have the same input go through the same rounds. -/
theorem Plays.beside {out : Ending × State} (h : s.Plays ss out) (hs : Beside [] [] s s' s s') :
    ∃ ss' out', s'.Plays ss' out' ∧ ss'.map entry = ss.map entry ∧ out'.1 = out.1 ∧
      Beside [] [] out.2 out'.2 out.2 out'.2 := by
  induction h generalizing s' with
  | last hround =>
    obtain ⟨hend, hentry, hbeside⟩ := hs.round id (Nat.zero_le _)
    refine ⟨[s'], (_, s'.round.2), .last (hend.symm.trans hround), ?_, rfl, hbeside.here⟩
    rw [List.map_singleton, List.map_singleton, hentry]
  | round hround _ ih =>
    obtain ⟨hend, hentry, hbeside⟩ := hs.round id (Nat.zero_le _)
    obtain ⟨ss', out', hplays, hentries, hsame, hout⟩ := ih hbeside.here
    refine ⟨s' :: ss', out', .round (hend.symm.trans hround) hplays, ?_, hsame, hout⟩
    rw [List.map_cons, List.map_cons, hentries, hentry]

/-- What is shown in a round comes behind what has been shown. -/
theorem shown_round (s : State) :
    s.round.2.stdout = s.stdout ++ s.entry.stdout ∧
      s.round.2.stderr = s.stderr ++ s.entry.stderr := by
  have hself : Beside [] [] s s s s := .start_of_unread_eq rfl rfl rfl rfl
  obtain ⟨-, -, hround⟩ := hself.round id (Nat.zero_le _)
  obtain ⟨out, hout, -⟩ := hround.machine.console.stdout
  obtain ⟨err, herr, -⟩ := hround.stderr
  have hout' : s.round.2.stdout = s.stdout ++ out := hout
  constructor
  · rw [entry, hout', added_append]
  · rw [entry, herr, added_append]

/-- The session shows what its rounds show, in order. -/
theorem Plays.shown {out : Ending × State} (h : s.Plays ss out) :
    out.2.stdout = s.stdout ++ String.join (ss.map (·.entry.stdout)) ∧
      out.2.stderr = s.stderr ++ String.join (ss.map (·.entry.stderr)) := by
  induction h with
  | @last s e _ =>
    obtain ⟨hout, herr⟩ := s.shown_round
    rw [List.map_singleton, List.map_singleton, String.join_cons, String.join_cons, String.join_nil,
      String.append_empty, String.append_empty]
    exact ⟨hout, herr⟩
  | @round s ss out _ _ ih =>
    obtain ⟨hout, herr⟩ := s.shown_round
    obtain ⟨houts, herrs⟩ := ih
    rw [List.map_cons, List.map_cons, String.join_cons, String.join_cons, ← String.append_assoc,
      ← String.append_assoc, ← hout, ← herr]
    exact ⟨houts, herrs⟩

/-! ## Idle lines -/

/-- An idle line is taken and answered, and that is all. -/
theorem round_of_idle {l : Line} (hl : s.line? = some l) (hidle : l.idle) :
    s.unread ≠ [] ∧ ∃ out err, s.round = (none, (s.take.2.print out).complain err) := by
  obtain ⟨line, hline, rfl⟩ := Option.map_eq_some_iff.1 hl
  obtain ⟨out, err, hstep⟩ := step_of_idle hidle
  exact ⟨unread_ne_nil hline, out, err, round_of_step_ok hline (hstep _)⟩

/-- A session in which an idle line has been taken is beside the one in which the line is not. -/
theorem Beside.of_idle {l : Line} (hl : s.line? = some l) (hidle : l.idle)
    (h : Beside s.unread s.take.2.unread s s' s s') :
    Beside [] [] s.round.2 s' s.round.2 s' := by
  obtain ⟨hne, out, err, hround⟩ := round_of_idle hl hidle
  obtain ⟨text, hstdin, hstdin', -⟩ := h.machine.console.stdin
  have htext : text = [] := List.append_left_eq_self.1 hstdin.symm
  have hended : s.take.2.machine.console.ended = s.machine.console.ended := by
    rw [take_of_ne_nil hne]
  subst htext
  rw [hround]
  exact .start_of_unread_eq h.machine.heap h.machine.scopes (hended.trans h.machine.console.ended)
    hstdin'.symm

/-- Without an idle line, the other rounds of the session are what they were. -/
theorem Plays.without_idle {stdin : List Char} {done later : List State} {l : Line}
    {out : Ending × State} (h : (start stdin).Plays (done ++ s :: later) out)
    (hl : s.line? = some l) (hidle : l.idle) :
    ∃ before, stdin = before ++ s.unread ∧
      ∃ ss' out', (start (before ++ s.take.2.unread)).Plays ss' out' ∧
        ss'.map entry = (done ++ later).map entry ∧ out'.1 = out.1 ∧
        Beside [] [] out.2 out'.2 out.2 out'.2 := by
  obtain ⟨hreaches, hlast⟩ := h.split
  obtain ⟨hne, _, _, hround⟩ := round_of_idle hl hidle
  obtain ⟨before, hbefore, hwhole⟩ := hreaches.later
  refine ⟨before, hbefore, ?_⟩
  have hstart : Beside s.unread s.take.2.unread (start stdin) (start (before ++ s.take.2.unread))
      (start stdin) (start (before ++ s.take.2.unread)) :=
    .start rfl rfl rfl hbefore rfl fun _ => hwhole.resolve_right hne
  -- both sessions come to the idle line, and the second one is behind it
  obtain ⟨done', s', hreaches', hdone, hs⟩ :=
    hreaches.beside (fun hnil => absurd hnil hne) hstart (Nat.le_refl _)
  cases hlast with
  | last hend =>
    rw [hround] at hend
    cases hend
  | round _ hrest =>
    obtain ⟨later', out', hplays, hlater, hsame, hout⟩ := hrest.beside (hs.of_idle hl hidle)
    refine ⟨done' ++ later', out', hreaches'.plays hplays, ?_, hsame, hout⟩
    rw [List.map_append, List.map_append, hdone, hlater]

/-- Nothing comes after the round of a line that quits. -/
theorem Plays.of_quit {later : List State} {out : Ending × State} (h : s.Plays (s :: later) out)
    (hl : s.line? = some .quit) :
    later = [] ∧ out = (.farewell, (s.take.2.finish .farewell).2) ∧ s.unread ≠ [] := by
  obtain ⟨line, hline, hquit⟩ := Option.map_eq_some_iff.1 hl
  have hround : s.round = (some .farewell, (s.take.2.finish .farewell).2) :=
    round_of_step_error hline (by rw [hquit]; rfl)
  cases h with
  | last hend =>
    rw [hround] at hend ⊢
    cases hend
    exact ⟨rfl, rfl, unread_ne_nil hline⟩
  | round hgo _ =>
    rw [hround] at hgo
    cases hgo

end State

open State (Plays)

/-- A session goes through its rounds, and shows what these show.  If an idle line is left out of
the input, all other rounds have the same entries, and the session ends in the same way, with the
same tables and scopes.  After a line that quits, nothing more is taken or run.  Which lines are
idle and which quit can be seen from their texts. -/
theorem idle_lines_leave_no_trace (stdin : List Char) :
    (start stdin).Plays (rounds stdin) (run stdin) ∧
      ((run stdin).2.stdout = banner ++ String.join ((rounds stdin).map (·.entry.stdout)) ∧
        (run stdin).2.stderr = String.join ((rounds stdin).map (·.entry.stderr))) ∧
      (∀ done s later l, rounds stdin = done ++ s :: later → s.line? = some l → l.idle →
        ∃ before, stdin = before ++ s.unread ∧
          let left := before ++ (Terminal.splitLine s.unread).2
          (rounds left).map State.entry = (done ++ later).map State.entry ∧
            (run left).1 = (run stdin).1 ∧
            (run left).2.machine.heap = (run stdin).2.machine.heap ∧
            (run left).2.machine.scopes = (run stdin).2.machine.scopes ∧
            (run left).2.unread = (run stdin).2.unread) ∧
      (∀ done s later, rounds stdin = done ++ s :: later → s.line? = some .quit →
        later = [] ∧ (run stdin).1 = .farewell ∧
          (run stdin).2.machine.heap = s.machine.heap ∧
          (run stdin).2.machine.scopes = s.machine.scopes ∧
          (run stdin).2.unread = (Terminal.splitLine s.unread).2) ∧
      (∀ line : String, Text.backspace ∉ line.toList →
        Line.ofString line = .ofTrimmed (Text.trim line)) ∧
      ∀ text : String, (Line.ofTrimmed text = .quit ↔ text ∈ Line.quitCommands) ∧
        ((Line.ofTrimmed text).idle ↔ text ∉ Line.quitCommands ∧
          (text = "" ∨ text.startsWith ":" ∨ ∃ e, compile text = .error e)) := by
  have hall (stdin : List Char) : (start stdin).Plays (rounds stdin) (run stdin) :=
    State.plays_loop (Nat.le_refl stdin.length)
  have hplays := hall stdin
  obtain ⟨hout, herr⟩ := hplays.shown
  refine ⟨hplays, ⟨hout, ?_⟩, ?_, ?_, fun _ => Line.ofString_of_notMem,
    fun _ => ⟨Line.ofTrimmed_eq_quit_iff, Line.idle_ofTrimmed_iff⟩⟩
  · rw [herr]
    exact String.empty_append
  · intro done s later l hrounds hl hidle
    rw [hrounds] at hplays
    obtain ⟨before, hstdin, ss', out', hplays', hentries, hend, hbeside⟩ :=
      hplays.without_idle hl hidle
    obtain ⟨hne, -⟩ := State.round_of_idle hl hidle
    rw [State.take_of_ne_nil hne] at hplays'
    obtain ⟨rfl, rfl⟩ := hplays'.unique (hall _)
    obtain ⟨text, hunread, hunread', -⟩ := hbeside.machine.console.stdin
    exact ⟨before, hstdin, hentries, hend, hbeside.machine.heap.symm, hbeside.machine.scopes.symm,
      hunread'.trans hunread.symm⟩
  · intro done s later hrounds hl
    rw [hrounds] at hplays
    obtain ⟨hnone, hrun, hne⟩ := hplays.split.2.of_quit hl
    rw [hrun, State.take_of_ne_nil hne]
    exact ⟨hnone, rfl, rfl, rfl, rfl⟩

/-- The second line is taken by the source before it, and so only the third one is idle.  The last
line is never read. -/
theorem idle_lines_leave_no_trace_of_help :
    let stdin := "stdin_read()\n:h\n :h\n1\n:q\n2".toList
    let left := "stdin_read()\n:h\n1\n:q\n2".toList
    ∃ a s b c, rounds stdin = [a, s, b, c] ∧ s.line? = some .help ∧ Line.help.idle ∧
      c.line? = some .quit ∧ (rounds left).map State.entry = [a, b, c].map State.entry ∧
      (run left).1 = .farewell ∧ (run left).2.unread = ['2'] := by
  intro stdin left
  have hrounds : (rounds stdin).map (fun s => (s.line?, s.unread)) =
      [(some (.source "stdin_read()"), stdin), (some .help, " :h\n1\n:q\n2".toList),
        (some (.source "1"), "1\n:q\n2".toList), (some .quit, ":q\n2".toList)] := by
    decide +kernel
  obtain ⟨a, _, hall, -, hrest⟩ := List.map_eq_cons_iff.1 hrounds
  obtain ⟨s, _, rfl, hs, hrest⟩ := List.map_eq_cons_iff.1 hrest
  obtain ⟨b, _, rfl, -, hrest⟩ := List.map_eq_cons_iff.1 hrest
  obtain ⟨c, _, rfl, hc, hrest⟩ := List.map_eq_cons_iff.1 hrest
  obtain rfl := List.map_eq_nil_iff.1 hrest
  obtain ⟨-, -, hidle, hquit, -⟩ := idle_lines_leave_no_trace stdin
  obtain ⟨hline, hunread⟩ := Prod.mk.inj hs
  obtain ⟨hlast, hlater⟩ := Prod.mk.inj hc
  obtain ⟨before, hbefore, hentries, hend, -, -, hleft⟩ := hidle [a] s [b, c] _ hall hline rfl
  obtain ⟨-, hfarewell, -, -, hsame⟩ := hquit [a, s, b] c [] hall hlast
  have hstdin : stdin = "stdin_read()\n:h\n".toList ++ " :h\n1\n:q\n2".toList := by decide +kernel
  rw [hunread, hstdin] at hbefore
  obtain rfl := List.append_cancel_right hbefore
  have hwithout : "stdin_read()\n:h\n".toList ++ (Terminal.splitLine s.unread).2 = left := by
    rw [hunread]
    decide +kernel
  rw [hwithout] at hentries hend hleft
  refine ⟨a, s, b, c, hall, hline, rfl, hlast, hentries, hend.trans hfarewell, ?_⟩
  rw [hleft, hsame, hlater]
  decide +kernel

end Repl

end MonkeyLang
