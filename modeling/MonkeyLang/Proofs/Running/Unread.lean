import MonkeyLang.Proofs.Running.Consoles
import MonkeyLang.Proofs.Running.Until

/-!
# What a terminal has not read yet

Lines are taken from the front of the input, each with its line feed, so what has been read is whole
lines or all that there was (`Terminal.Later`).  If two inputs begin with the same whole lines, the
terminals answer alike as long as these last (`Terminal.Beside`).  So a source that does not read
beyond them does the same on both, and shows the same (`Machine.Alike.runSource_beside`).
-/

namespace MonkeyLang

/-! ## Whole lines -/

/-- The last line of the text has its line feed, as those before it do. -/
def WholeLines (text : List Char) : Prop := text = [] ∨ ∃ front, text = front ++ ['\n']

namespace WholeLines

variable {text text' : List Char} {c : Char}

theorem append (h : WholeLines text) (h' : WholeLines text') : WholeLines (text ++ text') := by
  rcases h' with rfl | ⟨front, rfl⟩
  · rw [List.append_nil]
    exact h
  · exact .inr ⟨text ++ front, (List.append_assoc ..).symm⟩

theorem of_cons (h : WholeLines (c :: text)) : WholeLines text := by
  rcases h with h | ⟨_ | ⟨d, front⟩, h⟩
  · cases h
  · cases h
    exact .inl rfl
  · exact .inr ⟨front, (List.cons.inj h).2⟩

/-- Where whole lines begin with a letter, there is more to come. -/
theorem ne_nil_of_cons (h : WholeLines (c :: text)) (hc : c ≠ '\n') : text ≠ [] := by
  rintro rfl
  rcases h with h | ⟨_ | ⟨d, front⟩, h⟩
  · cases h
  · exact hc (List.cons.inj h).1
  · simp at h

end WholeLines

namespace Terminal

/-- The first line goes as far as a line feed, or it is all of the text. -/
theorem splitLine_cases (text : List Char) :
    (∃ front rest, text = front ++ '\n' :: rest ∧ splitLine text = (front ++ ['\n'], rest)) ∨
      splitLine text = (text, []) := by
  induction text with
  | nil => exact .inr rfl
  | cons c cs ih =>
    by_cases hc : c = '\n'
    · subst hc
      exact .inl ⟨[], cs, rfl, rfl⟩
    · rw [splitLine_cons_of_ne hc]
      rcases ih with ⟨front, rest, rfl, hsplit⟩ | hsplit
      · rw [hsplit]
        exact .inl ⟨c :: front, rest, rfl, rfl⟩
      · rw [hsplit]
        exact .inr rfl

theorem splitLine_append (text : List Char) : (splitLine text).1 ++ (splitLine text).2 = text := by
  rcases splitLine_cases text with ⟨front, rest, htext, hsplit⟩ | hsplit
  · rw [hsplit, htext, List.append_assoc, List.singleton_append]
  · rw [hsplit, List.append_nil]

/-- The first line is whole if anything comes after it. -/
theorem wholeLines_splitLine (text : List Char) :
    WholeLines (splitLine text).1 ∨ (splitLine text).2 = [] := by
  rcases splitLine_cases text with ⟨front, rest, -, hsplit⟩ | hsplit
  · rw [hsplit]
    exact .inl (.inr ⟨front, rfl⟩)
  · rw [hsplit]
    exact .inr rfl

/-- The rest is shorter than the text. -/
theorem length_splitLine_lt {text : List Char} (h : text ≠ []) :
    (splitLine text).2.length < text.length := by
  rcases splitLine_cases text with ⟨front, rest, htext, hsplit⟩ | hsplit
  · rw [hsplit, htext, List.length_append, List.length_cons]
    show rest.length < _
    omega
  · rw [hsplit]
    exact List.length_pos_iff.2 h

/-- Whole lines lose their first one, whatever comes after them. -/
theorem splitLine_of_wholeLines {text : List Char} (h : WholeLines text) (hne : text ≠ [])
    (unread : List Char) :
    splitLine (text ++ unread) = ((splitLine text).1, (splitLine text).2 ++ unread) ∧
      WholeLines (splitLine text).2 := by
  induction text with
  | nil => exact absurd rfl hne
  | cons c cs ih =>
    by_cases hc : c = '\n'
    · subst hc
      exact ⟨rfl, h.of_cons⟩
    · obtain ⟨hsplit, hrest⟩ := ih h.of_cons (h.ne_nil_of_cons hc)
      rw [List.cons_append, splitLine_cons_of_ne hc, splitLine_cons_of_ne hc, hsplit]
      exact ⟨rfl, hrest⟩

/-- So do two texts that begin with the same whole lines, or that are the same. -/
theorem splitLine_common {text unread unread' : List Char} (hne : text ≠ [])
    (hnil : unread = [] → unread' = []) (hwhole : unread ≠ [] → WholeLines text) :
    splitLine (text ++ unread) = ((splitLine text).1, (splitLine text).2 ++ unread) ∧
      splitLine (text ++ unread') = ((splitLine text).1, (splitLine text).2 ++ unread') ∧
      (unread ≠ [] → WholeLines (splitLine text).2) := by
  by_cases hunread : unread = []
  · rw [hunread, hnil hunread, List.append_nil, List.append_nil]
    exact ⟨rfl, rfl, fun hne => absurd rfl hne⟩
  · obtain ⟨hsplit, hrest⟩ := splitLine_of_wholeLines (hwhole hunread) hne unread
    obtain ⟨hsplit', -⟩ := splitLine_of_wholeLines (hwhole hunread) hne unread'
    exact ⟨hsplit, hsplit', fun _ => hrest⟩

/-! ## Taking lines -/

/-- The input of the second terminal is what the first one has when some lines are taken. -/
def Later (c c' : Terminal) : Prop :=
  ∃ taken, c.stdin = taken ++ c'.stdin ∧ (WholeLines taken ∨ c'.stdin = [])

namespace Later

variable {c c' c'' : Terminal}

theorem of_stdin_eq (h : c.stdin = c'.stdin) : Later c c' := ⟨[], h, .inl (.inl rfl)⟩

theorem trans (h : Later c c') (h' : Later c' c'') : Later c c'' := by
  obtain ⟨taken, hstdin, htaken⟩ := h
  obtain ⟨taken', hstdin', htaken'⟩ := h'
  refine ⟨taken ++ taken', by rw [hstdin, hstdin', List.append_assoc], ?_⟩
  rcases htaken' with htaken' | hnil
  · rcases htaken with htaken | hnil
    · exact .inl (htaken.append htaken')
    · -- nothing was left to be taken
      rw [hnil] at hstdin'
      exact .inr (List.append_eq_nil_iff.1 hstdin'.symm).2
  · exact .inr hnil

/-- To read is to take a line. -/
theorem readLine (c : Terminal) (prompt : Option String) : Later c (c.readLine prompt).2 := by
  by_cases h : c.stdin = []
  · rw [readLine_of_nil h]
    exact .of_stdin_eq rfl
  · rw [readLine_of_ne_nil h]
    exact ⟨(splitLine c.stdin).1, (splitLine_append c.stdin).symm, wholeLines_splitLine c.stdin⟩

theorem length_le (h : Later c c') : c'.stdin.length ≤ c.stdin.length := by
  obtain ⟨taken, hstdin, -⟩ := h
  rw [hstdin, List.length_append]
  omega

end Later

end Terminal

/-- Whatever is run, the terminal only takes lines. -/
theorem Machine.later_runSource (m : Machine Terminal) (source : String) :
    m.console.Later (m.runSource source).2.console := by
  have hsteps : Steps (fun _ => True) fun m m' : Machine Terminal => m.console.Later m'.console :=
    { refl := fun _ => .of_stdin_eq rfl
      trans := fun h₁ h₂ => h₁.trans h₂
      scopes := fun _ _ => .of_stdin_eq rfl
      alloc := fun _ _ => .of_stdin_eq rfl
      insert := fun _ _ _ _ _ => .of_stdin_eq rfl
      writeLine := fun _ _ _ => .of_stdin_eq rfl
      readLine := fun _ m prompt => .readLine m.console prompt }
  exact (Machine.ascent_visits hsteps fun _ _ _ _ _ => trivial).ends

/-! ## Two inputs -/

/-- Both terminals have some whole lines to read before what is unread of the one and of the other.
Where nothing else is unread, the lines need not be whole.  The same has been shown on both after
some text on the one and some on the other. -/
structure Terminal.Beside (unread unread' : List Char) (shown shown' : String)
    (c c' : Terminal) : Prop where
  stdin : ∃ text, c.stdin = text ++ unread ∧ c'.stdin = text ++ unread' ∧
    (unread ≠ [] → WholeLines text)
  stdout : ∃ text, c.stdout = shown ++ text ∧ c'.stdout = shown' ++ text
  ended : c.ended = c'.ended

namespace Terminal.Beside

variable {unread unread' : List Char} {shown shown' : String} {c c' : Terminal}

theorem write (h : Beside unread unread' shown shown' c c') (text : String) :
    Beside unread unread' shown shown' (c.write text) (c'.write text) where
  stdin := h.stdin
  stdout := by
    obtain ⟨before, hout, hout'⟩ := h.stdout
    refine ⟨before ++ text, ?_, ?_⟩
    · rw [← String.append_assoc, ← hout]
      rfl
    · rw [← String.append_assoc, ← hout']
      rfl
  ended := h.ended

/-- The prompt is shown first, and then a line is taken. -/
theorem readLine (hnil : unread = [] → unread' = [])
    (h : Beside unread unread' shown shown' c c') (prompt : Option String)
    (hlen : unread.length ≤ (c.readLine prompt).2.stdin.length) :
    (c.readLine prompt).1 = (c'.readLine prompt).1 ∧
      Beside unread unread' shown shown' (c.readLine prompt).2 (c'.readLine prompt).2 := by
  obtain ⟨text, hstdin, hstdin', hwhole⟩ := h.stdin
  obtain ⟨-, hout, -⟩ := h.write (prompt.getD "")
  by_cases htext : text = []
  · subst htext
    -- what is unread is not read, so there is none
    have hunread : unread = [] := by
      by_contra hne
      have hc : c.stdin ≠ [] := by
        rw [hstdin]
        exact hne
      rw [readLine_of_ne_nil hc, hstdin] at hlen
      have hlt := length_splitLine_lt hne
      have hle : unread.length ≤ (splitLine unread).2.length := hlen
      omega
    have hc : c.stdin = [] := hstdin.trans hunread
    have hc' : c'.stdin = [] := hstdin'.trans (hnil hunread)
    rw [readLine_of_nil hc, readLine_of_nil hc']
    exact ⟨rfl, ⟨[], hstdin, hstdin', hwhole⟩, hout, rfl⟩
  · obtain ⟨hsplit, hsplit', hrest⟩ := splitLine_common htext hnil hwhole
    rw [← hstdin] at hsplit
    rw [← hstdin'] at hsplit'
    have hc : c.stdin ≠ [] := by
      rw [hstdin]
      exact List.append_ne_nil_of_left_ne_nil htext unread
    have hc' : c'.stdin ≠ [] := by
      rw [hstdin']
      exact List.append_ne_nil_of_left_ne_nil htext unread'
    rw [readLine_of_ne_nil hc, readLine_of_ne_nil hc', hsplit, hsplit']
    exact ⟨rfl, ⟨_, rfl, rfl, hrest⟩, hout, h.ended⟩

/-- No program can tell them apart before it comes to what is unread. -/
theorem simulatesUntil (hnil : unread = [] → unread' = []) (shown shown' : String) :
    Console.SimulatesUntil (fun c : Terminal => c.stdin.length < unread.length)
      (Beside unread unread' shown shown') where
  past_writeLine h _ := h
  past_readLine {c} h prompt := by
    have hle := (Later.readLine c prompt).length_le
    show (c.readLine prompt).2.stdin.length < unread.length
    omega
  writeLine h line := h.write (line ++ "\n")
  readLine {c c'} h prompt := by
    show (c.readLine prompt).2.stdin.length < unread.length ∨ _
    by_cases hlt : (c.readLine prompt).2.stdin.length < unread.length
    · exact .inl hlt
    · have hlen : unread.length ≤ (c.readLine prompt).2.stdin.length := by omega
      exact .inr (h.readLine hnil prompt hlen)

end Terminal.Beside

/-- A source that does not read what is unread has the same result on both machines, the same
happens on their terminals, and they are alike again. -/
theorem Machine.Alike.runSource_beside {unread unread' : List Char} {shown shown' : String}
    {m m' : Machine Terminal} (hnil : unread = [] → unread' = [])
    (hm : m.Alike (Terminal.Beside unread unread' shown shown') m') {source : String}
    (hlen : unread.length ≤ (m.runSource source).2.console.stdin.length) :
    (m.runSource source).1 = (m'.runSource source).1 ∧
      m.eventsOf source = m'.eventsOf source ∧
      (m.runSource source).2.Alike (Terminal.Beside unread unread' shown shown')
        (m'.runSource source).2 := by
  apply hm.runSource_until (Terminal.Beside.simulatesUntil hnil shown shown')
  omega

end MonkeyLang
