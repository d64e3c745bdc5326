import MonkeyLang.Json.Read
import MonkeyLang.Proofs.Json.Grammar
import MonkeyLang.Proofs.Scanning.Pieces

/-!
# Every text is read

The reader takes any text of the grammar and gives the value that the text stands for
(`IsText.read`).  So no text stands for two values (`IsText.unique`).

What is behind a value matters only for a number, which must not go on there (`Follows`).  A reader
of a part of the text needs at most twice as many steps as the part has characters, and those of
items and members one more, as no step is taken twice at one character.
-/

namespace MonkeyLang.Json.Grammar

open Token (Ends takeWhile_append_of_ends dropWhile_append_of_ends)

/-! ## Blanks -/

theorem Blank.isSpace {a : List Char} (ha : Blank a) : ∀ c ∈ a, isSpace c := by
  intro c hc
  have h := ha c hc
  simp only [List.mem_cons, List.not_mem_nil, or_false] at h
  rcases h with rfl | rfl | rfl | rfl <;> rfl

theorem skipSpace_append {a : List Char} (ha : Blank a) (cs : List Char) :
    skipSpace (a ++ cs) = skipSpace cs :=
  List.dropWhile_append_of_pos ha.isSpace

theorem skipSpace_cons {c : Char} (hc : isSpace c = false) (cs : List Char) :
    skipSpace (c :: cs) = c :: cs :=
  List.dropWhile_cons_of_neg (by simp [hc])

theorem ends_cons {p : Char → Bool} {c : Char} (hc : p c = false) (cs : List Char) :
    Ends p (c :: cs) := by
  rintro _ ⟨⟩
  exact hc

theorem ends_nil (p : Char → Bool) : Ends p [] := nofun

theorem ends_of_imp {p q : Char → Bool} {cs : List Char} (h : Ends p cs)
    (hpq : ∀ c, q c → p c) : Ends q cs := by
  intro c hc
  refine Bool.eq_false_iff.2 fun hq => ?_
  exact absurd (hpq c hq) (Bool.eq_false_iff.1 (h c hc))

/-! ## Numbers -/

/-- What a number could go on with. -/
def inNumber (c : Char) : Bool := c.isDigit || c == '.' || c == 'e' || c == 'E'

/-- What stands behind a value does not make a number longer. -/
def Follows (rest : List Char) : Prop := Ends inNumber rest

theorem takeDigits_append {ds rest : List Char} (hds : ∀ d ∈ ds, d.isDigit)
    (h : Ends Char.isDigit rest) : takeDigits (ds ++ rest) = (ds, rest) := by
  rw [takeDigits, takeWhile_append_of_ends hds h, dropWhile_append_of_ends hds h]

theorem Digits.head {ds : List Char} (h : Digits ds) : ∃ d ds', ds = d :: ds' ∧ d.isDigit := by
  obtain ⟨d, ds', rfl⟩ := List.exists_cons_of_ne_nil h.1
  exact ⟨d, ds', rfl, h.2 d (List.mem_cons_self ..)⟩

/-- A whole number is read up to its end. -/
theorem readWhole_append {ds rest : List Char} (h : Whole ds) (hrest : Ends Char.isDigit rest) :
    readWhole (ds ++ rest) = some (ds, rest) := by
  rw [readWhole, takeDigits_append h.digits.2 hrest]
  have hzero := h.zero
  split
  · next heq => exact absurd (congrArg Prod.fst heq) h.digits.1
  · next heq =>
    cases heq
    cases hzero rfl
  · next heq =>
    cases heq
    rfl

theorem readFraction_append {fraction rest : List Char} (h : Fraction fraction)
    (hrest : Ends (fun c => c.isDigit || c == '.') rest) :
    readFraction (fraction ++ rest) = some (fraction, rest) := by
  cases h with
  | absent =>
    show readFraction rest = some ([], rest)
    unfold readFraction
    split
    · exact absurd (hrest '.' rfl) (by decide)
    · rfl
  | point hds =>
    have hdigits : Ends Char.isDigit rest := ends_of_imp hrest fun c hc => by simp [hc]
    rw [List.cons_append, readFraction, takeDigits_append hds.2 hdigits]
    exact if_neg (by simpa using hds.1)

theorem readExponent_append {exponent rest : List Char} (h : Exponent exponent)
    (hrest : Follows rest) : readExponent (exponent ++ rest) = some (exponent, rest) := by
  cases h with
  | absent =>
    show readExponent rest = some ([], rest)
    cases rest with
    | nil => rfl
    | cons c rest =>
      have hc := hrest c rfl
      simp only [inNumber, Bool.or_eq_false_iff, beq_eq_false_iff_ne] at hc
      rw [readExponent.eq_def]
      exact if_neg (by simp [hc])
  | @power e sign ds he hsign hds =>
    have hdigits : Ends Char.isDigit rest := ends_of_imp hrest fun c hc => by simp [inNumber, hc]
    simp only [List.mem_cons, List.not_mem_nil, or_false] at he hsign
    rw [List.cons_append, List.append_assoc, readExponent.eq_def]
    refine (if_pos he).trans ?_
    split
    next sign' cs hsplit =>
    obtain ⟨rfl, rfl⟩ : sign' = sign ∧ cs = ds ++ rest := by
      rcases hsign with rfl | rfl | rfl
      · obtain ⟨d, ds', rfl, hd⟩ := hds.head
        split at hsplit
        · next heq =>
          cases heq
          exact absurd hd (by decide)
        · next heq =>
          cases heq
          exact absurd hd (by decide)
        · cases hsplit
          exact ⟨rfl, rfl⟩
      · cases hsplit
        exact ⟨rfl, rfl⟩
      · cases hsplit
        exact ⟨rfl, rfl⟩
    rw [takeDigits_append hds.2 hdigits]
    exact if_neg (by simpa using hds.1)

theorem Exponent.ends {exponent rest : List Char} (h : Exponent exponent) (hrest : Follows rest) :
    Ends (fun c => c.isDigit || c == '.') (exponent ++ rest) := by
  cases h with
  | absent =>
    refine ends_of_imp hrest fun c hc => ?_
    rw [inNumber, hc]
    rfl
  | power he =>
    simp only [List.mem_cons, List.not_mem_nil, or_false] at he
    rcases he with rfl | rfl
    · exact ends_cons rfl _
    · exact ends_cons rfl _

theorem Fraction.ends {fraction rest : List Char} (h : Fraction fraction)
    (hrest : Ends (fun c => c.isDigit || c == '.') rest) :
    Ends Char.isDigit (fraction ++ rest) := by
  cases h with
  | absent => exact ends_of_imp hrest fun c hc => by simp [hc]
  | point _ => exact ends_cons rfl _

/-- The parts of a number, one after the other. -/
theorem readNumber_append {sign ds fraction exponent rest : List Char} (hsign : sign ∈ [[], ['-']])
    (h : Whole ds) (hfraction : Fraction fraction) (hexponent : Exponent exponent)
    (hrest : Follows rest) :
    readNumber (sign ++ ds ++ fraction ++ exponent ++ rest) =
      if fraction.isEmpty && exponent.isEmpty && !(sign == ['-'] && Text.natOfDigits ds == 0) then
        some (.int (if sign == ['-'] then -Text.natOfDigits ds else Text.natOfDigits ds), rest)
      else some (.decimal (String.ofList (sign ++ ds ++ fraction ++ exponent)), rest) := by
  have hends := hexponent.ends hrest
  simp only [List.mem_cons, List.not_mem_nil, or_false] at hsign
  simp only [List.append_assoc]
  unfold readNumber
  split
  next negative cs hsplit =>
  obtain ⟨rfl, rfl⟩ : negative = (sign == ['-']) ∧
      cs = ds ++ (fraction ++ (exponent ++ rest)) := by
    rcases hsign with rfl | rfl
    · obtain ⟨d, ds', rfl, hd⟩ := h.digits.head
      split at hsplit
      · next heq =>
        cases heq
        exact absurd hd (by decide)
      · cases hsplit
        exact ⟨rfl, rfl⟩
    · cases hsplit
      exact ⟨rfl, rfl⟩
  rw [readWhole_append h (hfraction.ends hends)]
  simp only [Option.bind_eq_bind, Option.bind_some, readFraction_append hfraction hends,
    readExponent_append hexponent hrest]
  have htext : (if sign == ['-'] then ['-'] else []) = sign := by
    rcases hsign with rfl | rfl <;> rfl
  simp only [htext, List.append_assoc]
  rfl

theorem Number.read {cs rest : List Char} {j : Json} (h : Number cs j) (hrest : Follows rest) :
    readNumber (cs ++ rest) = some (j, rest) := by
  cases h with
  | @whole ds h =>
    have hsign : [] ∈ [[], ['-']] := List.mem_cons_self ..
    have hread := readNumber_append hsign h .absent .absent hrest
    simpa using hread
  | @negative ds h hne =>
    have hsign : ['-'] ∈ [[], ['-']] := by simp
    have hread := readNumber_append hsign h .absent .absent hrest
    simpa [hne] using hread
  | decimal hsign h hfraction hexponent hnot =>
    rw [readNumber_append hsign h hfraction hexponent hrest, if_neg]
    rcases hnot with hnot | hnot | ⟨rfl, hzero⟩
    · simp [hnot]
    · simp [hnot]
    · simp [hzero]

/-! ## Strings -/

/-- The digit that the table has at `n` is read as `n`. -/
theorem HexDigit.value {c : Char} {n : Nat} (h : HexDigit c n) : hexValue? c = some n := by
  rcases h with h | h
  · obtain ⟨hn, rfl⟩ := List.getElem?_eq_some_iff.1 h
    have hall : ∀ n (hn : n < 16), hexValue? "0123456789abcdef".toList[n] = some n := by decide
    exact hall n hn
  · obtain ⟨hn, rfl⟩ := List.getElem?_eq_some_iff.1 h
    have hall : ∀ n (hn : n < 16), hexValue? "0123456789ABCDEF".toList[n] = some n := by decide
    exact hall n hn

theorem CodeUnit.read {u rest : List Char} {n : Nat} (h : CodeUnit u n) :
    readUnit (u ++ rest) = some (n, rest) := by
  cases h with
  | mk ha hb hc hd =>
    simp only [List.cons_append, List.nil_append, readUnit, ha.value, hb.value, hc.value, hd.value]
    rfl

/-- A unit that is a character by itself. -/
theorem readCodePoint_unit {u cs : List Char} {n : Nat} (hu : CodeUnit u n) (hn : n.isValidChar) :
    readCodePoint (u ++ cs) = some (Char.ofNat n, cs) := by
  have hlow : ¬ (0xD800 ≤ n ∧ n < 0xDC00) := by
    unfold Nat.isValidChar at hn
    omega
  rw [readCodePoint, hu.read]
  simp only [Option.bind_eq_bind, Option.bind_some]
  rw [if_neg hlow, if_pos hn]
  rfl

/-- Two surrogates that are one character together. -/
theorem readCodePoint_pair {u v cs : List Char} {n m : Nat} (hu : CodeUnit u n) (hv : CodeUnit v m)
    (hn : 0xD800 ≤ n ∧ n < 0xDC00) (hm : 0xDC00 ≤ m ∧ m < 0xE000) :
    readCodePoint (u ++ '\\' :: 'u' :: (v ++ cs)) =
      some (Char.ofNat (0x10000 + (n - 0xD800) * 0x400 + (m - 0xDC00)), cs) := by
  have hskip : skip? ['\\', 'u'] ('\\' :: 'u' :: (v ++ cs)) = some (v ++ cs) := rfl
  rw [readCodePoint, hu.read]
  simp only [Option.bind_eq_bind, Option.bind_some]
  rw [if_pos hn, hskip]
  simp only [Option.bind_some, hv.read]
  rw [if_pos hm]
  rfl

/-- One piece of a string is one step, and one character. -/
theorem readString_piece {w : List Char} {c : Char} (h : Piece w c) (steps : Nat) (text : String)
    (cs : List Char) :
    readString (steps + 1) text (w ++ cs) = readString steps (text.push c) cs := by
  cases h with
  | plain hc hquote hslash =>
    rw [List.singleton_append, readString.eq_def]
    dsimp only
    split
    · next heq => exact absurd (List.cons.inj heq).1 hquote
    · next heq => exact absurd (List.cons.inj heq).1 hslash
    · next heq => exact absurd (List.cons.inj heq).1 hslash
    · next heq =>
      cases heq
      exact if_neg fun h => h.elim hslash (Nat.not_lt.2 hc)
    · next heq => cases heq
  | short h =>
    simp only [escapes, List.mem_cons, Prod.mk.injEq, List.not_mem_nil, or_false] at h
    rcases h with ⟨rfl, rfl⟩ | ⟨rfl, rfl⟩ | ⟨rfl, rfl⟩ | ⟨rfl, rfl⟩ | ⟨rfl, rfl⟩ | ⟨rfl, rfl⟩ |
      ⟨rfl, rfl⟩ | ⟨rfl, rfl⟩
    all_goals rfl
  | unit hu hn =>
    rw [List.cons_append, List.cons_append, readString, readCodePoint_unit hu hn]
  | pair hu hv hn hm =>
    simp only [List.cons_append, List.append_assoc]
    rw [readString, readCodePoint_pair hu hv hn hm]

theorem Piece.length_pos {w : List Char} {c : Char} (h : Piece w c) : 0 < w.length := by
  cases h <;> exact Nat.succ_pos _

/-- A string is read up to its closing quote, if there are steps enough. -/
theorem Pieces.read {cs s : List Char} (h : Pieces cs s) {steps : Nat} (hsteps : cs.length < steps)
    (text : String) (rest : List Char) :
    readString steps text (cs ++ '"' :: rest) = some (text ++ String.ofList s, rest) := by
  induction h generalizing steps text with
  | nil =>
    obtain ⟨steps, rfl⟩ := Nat.exists_eq_add_one_of_ne_zero (Nat.ne_of_gt hsteps)
    simp [readString]
  | @cons w cs s c hc hs ih =>
    obtain ⟨steps, rfl⟩ :=
      Nat.exists_eq_add_one_of_ne_zero (Nat.ne_of_gt (Nat.zero_lt_of_lt hsteps))
    have hpos := hc.length_pos
    rw [List.length_append] at hsteps
    have htext : text.push c ++ String.ofList s = text ++ String.ofList (c :: s) := by
      rw [← String.toList_inj]
      simp
    rw [List.append_assoc, readString_piece hc, ih (by omega), htext]

theorem Quoted.read {cs : List Char} {s : String} (h : Quoted cs s) {steps : Nat}
    (hsteps : cs.length ≤ steps) (rest : List Char) :
    ∃ tail, cs ++ rest = '"' :: tail ∧ readString steps "" tail = some (s, rest) := by
  cases h with
  | @mk cs s h =>
    refine ⟨cs ++ '"' :: rest, by simp, ?_⟩
    rw [h.read (by simp at hsteps; omega)]
    simp

/-! ## Values -/

/-- What the text of a value can begin with. -/
def starts (c : Char) : Bool := ['n', 't', 'f', '"', '[', '\x7b', '-'].contains c || c.isDigit

/-- What begins a value is no sign of another meaning. -/
theorem ne_of_starts {c d : Char} (hc : starts c) (hd : starts d = false) : c ≠ d := by
  rintro rfl
  rw [hc] at hd
  cases hd

theorem isSpace_of_starts {c : Char} (hc : starts c) : isSpace c = false := by
  simp only [isSpace, Bool.or_eq_false_iff, beq_eq_false_iff_ne]
  exact ⟨⟨⟨ne_of_starts hc rfl, ne_of_starts hc rfl⟩, ne_of_starts hc rfl⟩, ne_of_starts hc rfl⟩

theorem Number.head {cs : List Char} {j : Json} (h : Number cs j) :
    ∃ c cs', cs = c :: cs' ∧ (c = '-' ∨ c.isDigit) := by
  cases h with
  | whole h =>
    obtain ⟨d, ds, rfl, hd⟩ := h.digits.head
    exact ⟨d, ds, rfl, .inr hd⟩
  | negative h _ => exact ⟨'-', _, rfl, .inl rfl⟩
  | decimal hsign h _ _ _ =>
    obtain ⟨d, ds, rfl, hd⟩ := h.digits.head
    simp only [List.mem_cons, List.not_mem_nil, or_false] at hsign
    rcases hsign with rfl | rfl
    · exact ⟨d, _, rfl, .inr hd⟩
    · exact ⟨'-', _, rfl, .inl rfl⟩

/-- The text of a value is not empty, and its first character tells it from anything else. -/
theorem Denotes.head {cs : List Char} {j : Json} (h : Denotes cs j) :
    ∃ c cs', cs = c :: cs' ∧ starts c := by
  cases h with
  | number h =>
    obtain ⟨c, cs', rfl, hc⟩ := h.head
    refine ⟨c, cs', rfl, ?_⟩
    rcases hc with rfl | hc
    · rfl
    · simp [starts, hc]
  | str h =>
    cases h with
    | mk _ => exact ⟨_, _, rfl, rfl⟩
  | _ => exact ⟨_, _, rfl, rfl⟩

theorem Padded.head {cs : List Char} {j : Json} (h : Padded cs j) (rest : List Char) :
    ∃ c tail, skipSpace (cs ++ rest) = c :: tail ∧ starts c := by
  cases h with
  | @mk a v b j ha hv hb =>
    obtain ⟨c, v', rfl, hc⟩ := hv.head
    refine ⟨c, v' ++ b ++ rest, ?_, hc⟩
    rw [List.append_assoc, skipSpace_append ha]
    exact skipSpace_cons (isSpace_of_starts hc) _

theorem Items.head {cs : List Char} {js : List Json} (h : Items cs js) (rest : List Char) :
    ∃ c tail, skipSpace (cs ++ rest) = c :: tail ∧ starts c := by
  cases h with
  | one h => exact h.head rest
  | cons h _ =>
    rw [List.append_assoc]
    exact h.head _

theorem Quoted.head {cs : List Char} {s : String} (h : Quoted cs s) : ∃ tail, cs = '"' :: tail := by
  cases h with
  | mk _ => exact ⟨_, rfl⟩

theorem Member.head {cs : List Char} {m : String × Json} (h : Member cs m) (rest : List Char) :
    ∃ tail, skipSpace (cs ++ rest) = '"' :: tail := by
  cases h with
  | @mk a n b cs name j ha hname hb h =>
    obtain ⟨tail, rfl⟩ := hname.head
    refine ⟨tail ++ (b ++ ':' :: cs) ++ rest, ?_⟩
    rw [List.append_assoc, skipSpace_append ha]
    exact skipSpace_cons rfl _

theorem Members.head {cs : List Char} {ms : List (String × Json)} (h : Members cs ms)
    (rest : List Char) : ∃ tail, skipSpace (cs ++ rest) = '"' :: tail := by
  cases h with
  | one h => exact h.head rest
  | cons h _ =>
    rw [List.append_assoc]
    exact h.head _

/-! ## The readers of values -/

theorem skipSpace_skipSpace (cs : List Char) : skipSpace (skipSpace cs) = skipSpace cs :=
  dropWhile_append_of_ends (List.forall_mem_nil _) (Token.ends_dropWhile isSpace cs)

section

variable {steps : Nat} {a cs : List Char}

/-- Blanks in front of a value do not count, nor do they take steps. -/
theorem readValue_skipSpace (steps : Nat) (cs : List Char) :
    readValue steps (skipSpace cs) = readValue steps cs := by
  cases steps with
  | zero => rfl
  | succ steps => rw [readValue, readValue, skipSpace_skipSpace]

theorem readItems_skipSpace (steps : Nat) (done : List Json) (cs : List Char) :
    readItems steps done (skipSpace cs) = readItems steps done cs := by
  cases steps with
  | zero => rfl
  | succ steps => rw [readItems, readItems, readValue_skipSpace]

theorem readMembers_skipSpace (steps : Nat) (done : List (String × Json)) (cs : List Char) :
    readMembers steps done (skipSpace cs) = readMembers steps done cs := by
  cases steps with
  | zero => rfl
  | succ steps => rw [readMembers, readMembers, skipSpace_skipSpace]

theorem readValue_blank (ha : Blank a) (steps : Nat) (cs : List Char) :
    readValue steps (a ++ cs) = readValue steps cs := by
  rw [← readValue_skipSpace, skipSpace_append ha, readValue_skipSpace]

theorem readValue_number {c : Char} (hc : c = '-' ∨ c.isDigit) :
    readValue (steps + 1) (c :: cs) = readNumber (c :: cs) := by
  have hne (d : Char) (hd : d ≠ '-' ∧ d.isDigit = false) : c ≠ d := by
    rintro rfl
    simp [hd] at hc
  have hspace : isSpace c = false := by
    rcases hc with rfl | hc
    · rfl
    · exact isSpace_of_starts (by simp [starts, hc])
  rw [readValue, skipSpace_cons hspace]
  split
  · next heq => exact absurd (List.cons.inj heq).1 (hne _ (by decide))
  · next heq => exact absurd (List.cons.inj heq).1 (hne _ (by decide))
  · next heq => exact absurd (List.cons.inj heq).1 (hne _ (by decide))
  · next heq => exact absurd (List.cons.inj heq).1 (hne _ (by decide))
  · next heq => exact absurd (List.cons.inj heq).1 (hne _ (by decide))
  · next heq => exact absurd (List.cons.inj heq).1 (hne _ (by decide))
  · rfl

theorem readValue_items (h : ∀ tail, skipSpace cs ≠ ']' :: tail) :
    readValue (steps + 1) ('[' :: cs) = readItems steps [] cs := by
  have hopen : skipSpace ('[' :: cs) = '[' :: cs := rfl
  rw [readValue]
  -- The last case is the one that is left by `h`.
  simp only [hopen, readItems_skipSpace]

theorem readValue_emptyArr {rest : List Char} (h : skipSpace cs = ']' :: rest) :
    readValue (steps + 1) ('[' :: cs) = some (.arr [], rest) := by
  have hopen : skipSpace ('[' :: cs) = '[' :: cs := rfl
  rw [readValue]
  simp only [hopen, h]

theorem readValue_members (h : ∀ tail, skipSpace cs ≠ '\x7d' :: tail) :
    readValue (steps + 1) ('\x7b' :: cs) = readMembers steps [] cs := by
  have hopen : skipSpace ('\x7b' :: cs) = '\x7b' :: cs := rfl
  rw [readValue]
  simp only [hopen, readMembers_skipSpace]

theorem readValue_emptyObj {rest : List Char} (h : skipSpace cs = '\x7d' :: rest) :
    readValue (steps + 1) ('\x7b' :: cs) = some (.obj [], rest) := by
  have hopen : skipSpace ('\x7b' :: cs) = '\x7b' :: cs := rfl
  rw [readValue]
  simp only [hopen, h]

end

theorem Blank.follows {b rest : List Char} (hb : Blank b) (hrest : Follows rest) :
    Follows (b ++ rest) := by
  cases b with
  | nil => exact hrest
  | cons c b =>
    have hc := hb c (List.mem_cons_self ..)
    simp only [List.mem_cons, List.not_mem_nil, or_false] at hc
    rcases hc with rfl | rfl | rfl | rfl <;> exact ends_cons rfl _

/-- Reads on behind a member and its blanks. -/
def readBehind (steps : Nat) (done : List (String × Json)) :
    List Char → Option (Json × List Char)
  | ',' :: cs => readMembers steps done cs
  | '\x7d' :: cs => some (.obj done.reverse, cs)
  | _ => none

/-! ## Completeness -/

mutual

/-- By induction on the grammar; twice the length of the text is enough for the steps, as each level
takes one and each character another. -/
theorem Denotes.read {cs : List Char} {j : Json} : Denotes cs j → ∀ {steps : Nat},
    2 * cs.length ≤ steps → ∀ {rest : List Char}, Follows rest →
      readValue steps (cs ++ rest) = some (j, rest)
  | .null, steps + 1, _, _, _ => rfl
  | .true, steps + 1, _, _, _ => rfl
  | .false, steps + 1, _, _, _ => rfl
  | .number h, steps, hsteps, rest, hrest => by
    obtain ⟨c, cs, rfl, hc⟩ := h.head
    obtain ⟨steps, rfl⟩ : ∃ s, steps = s + 1 :=
      Nat.exists_eq_add_one_of_ne_zero (by rw [List.length_cons] at hsteps; omega)
    rw [List.cons_append, readValue_number hc, ← List.cons_append]
    exact h.read hrest
  | .str h, steps, hsteps, rest, hrest => by
    obtain ⟨steps, rfl⟩ : ∃ s, steps = s + 1 := by
      obtain ⟨tail, rfl⟩ := h.head
      exact Nat.exists_eq_add_one_of_ne_zero (by rw [List.length_cons] at hsteps; omega)
    have hlength : cs.length ≤ steps := by omega
    obtain ⟨tail, htail, hread⟩ := h.read hlength rest
    rw [htail]
    show (readString steps "" tail).map _ = _
    rw [hread]
    rfl
  | .emptyArr ha, steps + 1, _, rest, _ => by
    rw [List.cons_append, List.append_assoc]
    exact readValue_emptyArr (skipSpace_append ha (']' :: rest))
  | @Denotes.arr cs _ h, steps + 1, hsteps, rest, _ => by
    obtain ⟨c, tail, hhead, hc⟩ := h.head (']' :: rest)
    have hne (tail' : List Char) : skipSpace (cs ++ ']' :: rest) ≠ ']' :: tail' := by
      rw [hhead]
      rintro ⟨⟩
      cases hc
    rw [List.cons_append, List.append_assoc, List.singleton_append, readValue_items hne]
    rw [List.length_cons, List.length_append, List.length_singleton] at hsteps
    exact h.read [] (by omega) rest
  | .emptyObj ha, steps + 1, _, rest, _ => by
    rw [List.cons_append, List.append_assoc]
    exact readValue_emptyObj (skipSpace_append ha ('\x7d' :: rest))
  | @Denotes.obj cs _ h, steps + 1, hsteps, rest, _ => by
    obtain ⟨tail, hhead⟩ := h.head ('\x7d' :: rest)
    have hne (tail' : List Char) : skipSpace (cs ++ '\x7d' :: rest) ≠ '\x7d' :: tail' := by
      rw [hhead]
      rintro ⟨⟩
    rw [List.cons_append, List.append_assoc, List.singleton_append, readValue_members hne]
    rw [List.length_cons, List.length_append, List.length_singleton] at hsteps
    exact h.read [] (by omega) rest

/-- The blanks behind the value are left. -/
theorem Padded.read {cs : List Char} {j : Json} : Padded cs j → ∀ {steps : Nat},
    2 * cs.length ≤ steps → ∀ {rest : List Char}, Follows rest →
      ∃ b, Blank b ∧ readValue steps (cs ++ rest) = some (j, b ++ rest)
  | .mk (a := a) (v := v) (b := b) ha hv hb, steps, hsteps, rest, hrest => by
    rw [List.length_append, List.length_append] at hsteps
    refine ⟨b, hb, ?_⟩
    rw [List.append_assoc, List.append_assoc, readValue_blank ha]
    exact hv.read (by omega) (hb.follows hrest)

theorem Items.read {cs : List Char} {js : List Json} : Items cs js → ∀ (done : List Json)
    {steps : Nat}, 2 * cs.length + 1 ≤ steps → ∀ rest : List Char,
      readItems steps done (cs ++ ']' :: rest) = some (.arr (done.reverse ++ js), rest)
  | .one (j := j) h, done, steps + 1, hsteps, rest => by
    have hlength : 2 * cs.length ≤ steps := by omega
    have hfollows : Follows (']' :: rest) := ends_cons rfl rest
    obtain ⟨b, hb, hread⟩ := h.read hlength hfollows
    rw [readItems, hread]
    simp only [skipSpace_append hb, skipSpace_cons (c := ']') rfl]
    rw [List.reverse_cons]
  | @Items.cons cs cs' j _ h hs, done, steps + 1, hsteps, rest => by
    rw [List.length_append, List.length_cons] at hsteps
    have hlength : 2 * cs.length ≤ steps := by omega
    have hfollows : Follows (',' :: (cs' ++ ']' :: rest)) := ends_cons rfl _
    obtain ⟨b, hb, hread⟩ := h.read hlength hfollows
    rw [List.append_assoc, List.cons_append, readItems, hread]
    simp only [skipSpace_append hb, skipSpace_cons (c := ',') rfl]
    rw [hs.read (j :: done) (by omega) rest, List.reverse_cons, List.append_assoc]
    rfl

/-- What is behind the colon is left with its blanks. -/
theorem Member.read {cs : List Char} {m : String × Json} : Member cs m →
    ∀ (done : List (String × Json)) {steps : Nat}, 2 * cs.length ≤ steps →
      ∀ {rest : List Char}, Follows rest → ∃ b, Blank b ∧
        readMembers (steps + 1) done (cs ++ rest) =
          readBehind steps (m :: done) (skipSpace (b ++ rest))
  | @Member.mk a n b cs name _ ha hname hb h, done, steps, hsteps, rest, hrest => by
    simp only [List.length_append, List.length_cons] at hsteps
    have hn : n.length ≤ steps := by omega
    have hcs : 2 * cs.length ≤ steps := by omega
    obtain ⟨tail, htail, hstring⟩ := hname.read hn (b ++ ':' :: (cs ++ rest))
    obtain ⟨b', hb', hvalue⟩ := h.read hcs hrest
    refine ⟨b', hb', ?_⟩
    have htext : skipSpace (a ++ (n ++ (b ++ ':' :: cs)) ++ rest) = '"' :: tail := by
      simp only [List.append_assoc, List.cons_append]
      rw [skipSpace_append ha, htail, skipSpace_cons rfl]
    rw [readMembers, htext]
    simp only [hstring, skipSpace_append hb, skipSpace_cons (c := ':') rfl, hvalue]
    rfl

theorem Members.read {cs : List Char} {ms : List (String × Json)} : Members cs ms →
    ∀ (done : List (String × Json)) {steps : Nat}, 2 * cs.length + 1 ≤ steps →
      ∀ rest : List Char,
        readMembers steps done (cs ++ '\x7d' :: rest) = some (.obj (done.reverse ++ ms), rest)
  | .one h, done, steps + 1, hsteps, rest => by
    have hlength : 2 * cs.length ≤ steps := by omega
    have hfollows : Follows ('\x7d' :: rest) := ends_cons rfl rest
    obtain ⟨b, hb, hread⟩ := h.read done hlength hfollows
    rw [hread, skipSpace_append hb, skipSpace_cons rfl, readBehind, List.reverse_cons]
  | @Members.cons cs cs' m _ h hs, done, steps + 1, hsteps, rest => by
    rw [List.length_append, List.length_cons] at hsteps
    have hlength : 2 * cs.length ≤ steps := by omega
    have hfollows : Follows (',' :: (cs' ++ '\x7d' :: rest)) := ends_cons rfl _
    obtain ⟨b, hb, hread⟩ := h.read done hlength hfollows
    rw [List.append_assoc, List.cons_append, hread, skipSpace_append hb, skipSpace_cons rfl]
    refine (hs.read (m :: done) (by omega) rest).trans ?_
    rw [List.reverse_cons, List.append_assoc]
    rfl

end

/-! ## Texts -/

theorem skipSpace_eq_nil {b : List Char} (hb : Blank b) : skipSpace b = [] := by
  have h := skipSpace_append hb []
  rwa [List.append_nil] at h

/-- Every text is read, and gives its value. -/
theorem IsText.read {text : String} {j : Json} (h : IsText text j) : Json.read text = some j := by
  have hlength : 2 * text.toList.length ≤ 2 * text.toList.length + 2 := Nat.le_add_right _ 2
  obtain ⟨b, hb, hread⟩ := Padded.read h hlength (ends_nil _)
  rw [List.append_nil, List.append_nil] at hread
  simp only [Json.read, hread, Option.bind_eq_bind, Option.bind_some, skipSpace_eq_nil hb]
  rfl

/-- A text stands for one value. -/
theorem IsText.unique {text : String} {j j' : Json} (h : IsText text j) (h' : IsText text j') :
    j = j' :=
  Option.some.inj (h.read.symm.trans h'.read)

end MonkeyLang.Json.Grammar
