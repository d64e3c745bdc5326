import MonkeyLang.CompileError
import MonkeyLang.Proofs.Scanning.Words

/-!
# String literals

Where a string literal ends is said by a pattern, what it stands for by a loop that looks for
backslashes.  Both cut its body into the same units: a character, or a backslash and the character
behind it (`Splits`).  So the loop never has a backslash left at the end, and its text is that of
the units one by one (`unescapeOnto?_eq_some`).

A unit may be chosen for each character of a text, and quote and backslash have one, so every text
can be written (`stringLiteral_mem_literals`); however it is written, it is read
(`spelled_of_mem_prod`).
-/

namespace MonkeyLang.Token

open Computability

/-! ## Units -/

/-- The characters that mean another one behind a backslash, with that one. -/
def knownEscapes : List (Char × Char) :=
  [('n', '\n'), ('t', '\t'), ('r', '\r'), ('\\', '\\'), ('"', '"')]

/-- What a unit of a string body stands for. -/
def unitText : List Char → List Char
  | ['\\', c] => ((knownEscapes.lookup c).map ([·])).getD ['\\', c]
  | u => u

/-- The units that the string body is made of. -/
structure Splits (body : List Char) (units : List (List Char)) : Prop where
  flatten_eq : units.flatten = body
  fits {u : List Char} (hu : u ∈ units) : u ∈ Pattern.unit

/-- As `unescapeOnto`, but there is no text if a backslash is left at the end. -/
def unescapeOnto? (text : String) : List Char → Option String
  | ['\\'] => none
  | '\\' :: c :: cs =>
    match escape? c with
    | some e => unescapeOnto? (text.push e) cs
    | none => unescapeOnto? ((text.push '\\').push c) cs
  | c :: cs => unescapeOnto? (text.push c) cs
  | [] => some text

theorem unitText_singleton (c : Char) : unitText [c] = [c] := by
  unfold unitText
  split
  · next heq => cases heq
  · rfl

/-- The escapes as a table. -/
theorem escape?_eq_lookup (c : Char) : escape? c = knownEscapes.lookup c := by
  unfold escape?
  split
  · rfl
  · rfl
  · rfl
  · rfl
  · rfl
  · next hn ht hr hb hq =>
    simp [knownEscapes, List.lookup_cons, beq_false_of_ne hn, beq_false_of_ne ht,
      beq_false_of_ne hr, beq_false_of_ne hb, beq_false_of_ne hq]

section

variable {u body t : List Char} {units : List (List Char)}

/-- A unit is a character by itself, or a backslash and what it escapes. -/
theorem Pattern.mem_unit :
    u ∈ Pattern.unit ↔
      (∃ c, c ≠ '"' ∧ c ≠ '\\' ∧ u = [c]) ∨ ∃ c, c ≠ '\n' ∧ u = ['\\', c] := by
  constructor
  · rintro (⟨c, ⟨hq, hb⟩, rfl⟩ | h)
    · exact .inl ⟨c, hq, hb, rfl⟩
    · obtain ⟨_, rfl, _, ⟨c, hc, rfl⟩, rfl⟩ := Language.mem_mul.1 h
      exact .inr ⟨c, hc, rfl⟩
  · rintro (⟨c, hq, hb, rfl⟩ | ⟨c, hc, rfl⟩)
    · exact .inl ⟨c, ⟨hq, hb⟩, rfl⟩
    · exact .inr (Language.append_mem_mul (Set.mem_singleton ['\\']) ⟨c, hc, rfl⟩)

/-- The first character of a body says how long its first unit is. -/
theorem unit_append_inj {v b b' : List Char} (hu : u ∈ Pattern.unit) (hv : v ∈ Pattern.unit)
    (h : u ++ b = v ++ b') : u = v ∧ b = b' := by
  rcases Pattern.mem_unit.1 hu with ⟨c, -, hc, rfl⟩ | ⟨c, -, rfl⟩ <;>
    rcases Pattern.mem_unit.1 hv with ⟨d, -, hd, rfl⟩ | ⟨d, -, rfl⟩
  · obtain ⟨rfl, rfl⟩ := List.cons.inj h
    exact ⟨rfl, rfl⟩
  · exact absurd (List.cons.inj h).1 hc
  · exact absurd (List.cons.inj h).1.symm hd
  · obtain ⟨rfl, rfl⟩ := List.cons.inj (List.cons.inj h).2
    exact ⟨rfl, rfl⟩

theorem ne_nil_of_mem_unit (hu : u ∈ Pattern.unit) : u ≠ [] := by
  rcases Pattern.mem_unit.1 hu with ⟨c, -, -, rfl⟩ | ⟨c, -, rfl⟩
  · exact List.cons_ne_nil c []
  · exact List.cons_ne_nil '\\' [c]

/-- A body is made of its units in one way only. -/
theorem Splits.unique {units' : List (List Char)} (h : Splits body units)
    (h' : Splits body units') : units' = units := by
  induction units generalizing body units' with
  | nil =>
    obtain rfl : [] = body := h.flatten_eq
    refine List.eq_nil_iff_forall_not_mem.2 fun u hu => ne_nil_of_mem_unit (h'.fits hu) ?_
    exact List.flatten_eq_nil_iff.1 h'.flatten_eq u hu
  | cons u units ih =>
    have hu := h.fits (List.mem_cons_self ..)
    cases units' with
    | nil =>
      have hnil := h.flatten_eq.trans h'.flatten_eq.symm
      exact absurd (List.append_eq_nil_iff.1 hnil).1 (ne_nil_of_mem_unit hu)
    | cons v units' =>
      have hv := h'.fits (List.mem_cons_self ..)
      obtain ⟨rfl, hrest⟩ := unit_append_inj hu hv (h.flatten_eq.trans h'.flatten_eq.symm)
      have htail : Splits units.flatten units := ⟨rfl, fun hw => h.fits (List.mem_cons_of_mem _ hw)⟩
      rw [ih htail ⟨hrest.symm, fun hw => h'.fits (List.mem_cons_of_mem _ hw)⟩]

/-- One unit more is what it stands for, and the text behind it. -/
theorem Spelled.append_unit (h : Spelled body t) (hu : u ∈ Pattern.unit) :
    Spelled (u ++ body) (unitText u ++ t) := by
  rcases Pattern.mem_unit.1 hu with ⟨c, hq, hb, rfl⟩ | ⟨c, hc, rfl⟩
  · rw [unitText_singleton]
    exact .plain hq hb h
  · rw [unitText, ← escape?_eq_lookup]
    cases he : escape? c with
    | some e => exact .known he h
    | none => exact .other he hc h

/-- A body stands for the texts of its units. -/
theorem Splits.spelled (h : Splits body units) : Spelled body (units.flatMap unitText) := by
  obtain ⟨rfl, hfits⟩ := h
  induction units with
  | nil => exact .nil
  | cons u units ih =>
    exact (ih fun hv => hfits (List.mem_cons_of_mem _ hv)).append_unit
      (hfits (List.mem_cons_self ..))

/-- What the pattern takes for a string literal can be cut into units. -/
theorem exists_splits_of_mem_str {slice : List Char} (h : slice ∈ Pattern.str.language) :
    ∃ (body : List Char) (units : List (List Char)),
      slice = '"' :: body ++ ['"'] ∧ Splits body units := by
  obtain ⟨b, t, hb, rfl⟩ := Pattern.mem_str.1 h
  obtain ⟨units, hflatten, hunits⟩ := Language.mem_kstar.1 hb.mem_kstar_unit
  exact ⟨b, units, rfl, hflatten.symm, fun hu => hunits _ hu⟩

/-- In a body, a backslash is never the last character that is left. -/
theorem Spelled.unescapeOnto?_eq_some (h : Spelled body t) (text : String) :
    unescapeOnto? text body = some (unescapeOnto text body) := by
  induction h generalizing text with
  | nil => rfl
  | @plain c b t _ hb _ ih =>
    rw [unescapeOnto?, unescapeOnto, ih] <;> simp [hb]
  | known he _ ih =>
    rw [unescapeOnto?, unescapeOnto, he]
    exact ih _
  | other he _ _ ih =>
    rw [unescapeOnto?, unescapeOnto, he]
    exact ih _

end

/-! ## Literals of a text -/

/-- The units that a character of a text can be written as. -/
def spellings (c : Char) : Language Char :=
  if c = '"' ∨ c = '\\' then {['\\', c]}
  else if c = '\n' then {[c]} + {['\\', 'n']}
  else if c = '\t' then {[c]} + {['\\', 't']}
  else if c = '\r' then {[c]} + {['\\', 'r']}
  else {[c]}

/-- The string literals of a text, with each character written in any of its ways. -/
def literals (s : String) : Language Char := {['"']} * (s.toList.map spellings).prod * {['"']}

section

variable {c : Char} {u body : List Char} {cs : List Char}

/-- What a character is written as stands for that character. -/
theorem unit_of_mem_spellings (h : u ∈ spellings c) : u ∈ Pattern.unit ∧ unitText u = [c] := by
  have hplain : c ≠ '"' → c ≠ '\\' → [c] ∈ Pattern.unit ∧ unitText [c] = [c] :=
    fun hq hb => ⟨Pattern.mem_unit.2 (.inl ⟨c, hq, hb, rfl⟩), unitText_singleton c⟩
  have hpair : ∀ {d : Char}, escape? d = some c →
      ['\\', d] ∈ Pattern.unit ∧ unitText ['\\', d] = [c] := by
    intro d hd
    refine ⟨Pattern.mem_unit.2 (.inr ⟨d, ?_, rfl⟩), ?_⟩
    · rintro rfl
      cases hd
    · rw [unitText, ← escape?_eq_lookup, hd]
      rfl
  unfold spellings at h
  split at h
  · next hc =>
    obtain rfl : u = ['\\', c] := h
    exact hpair (by rcases hc with rfl | rfl <;> rfl)
  · next hc =>
    obtain ⟨hq, hb⟩ := not_or.1 hc
    have heither : ∀ {d : Char}, u ∈ ({[c]} + {['\\', d]} : Language Char) → escape? d = some c →
        u ∈ Pattern.unit ∧ unitText u = [c] := by
      rintro d (rfl | rfl) hd
      · exact hplain hq hb
      · exact hpair hd
    split at h
    · next hn => exact heither h (by rw [hn]; rfl)
    split at h
    · next ht => exact heither h (by rw [ht]; rfl)
    split at h
    · next hr => exact heither h (by rw [hr]; rfl)
    · obtain rfl : u = [c] := h
      exact hplain hq hb

/-- However its characters are written, the body stands for the text. -/
theorem spelled_of_mem_prod (h : body ∈ (cs.map spellings).prod) : Spelled body cs := by
  induction cs generalizing body with
  | nil =>
    obtain rfl : body = [] := h
    exact .nil
  | cons c cs ih =>
    rw [List.map_cons, List.prod_cons] at h
    obtain ⟨u, hu, b, hb, rfl⟩ := Language.mem_mul.1 h
    obtain ⟨hunit, htext⟩ := unit_of_mem_spellings hu
    have hspelled := (ih hb).append_unit hunit
    rwa [htext] at hspelled

theorem literalChar_mem_spellings (c : Char) : literalChar c ∈ spellings c := by
  unfold literalChar spellings
  split
  · exact Set.mem_singleton _
  · split
    · exact .inl (Set.mem_singleton _)
    split
    · exact .inl (Set.mem_singleton _)
    split
    · exact .inl (Set.mem_singleton _)
    · exact Set.mem_singleton _

/-- One way to write a text is to escape what has to be. -/
theorem flatMap_literalChar_mem_prod (cs : List Char) :
    cs.flatMap literalChar ∈ (cs.map spellings).prod := by
  induction cs with
  | nil => exact Language.nil_mem_one
  | cons c cs ih =>
    rw [List.flatMap_cons, List.map_cons, List.prod_cons]
    exact Language.append_mem_mul (literalChar_mem_spellings c) ih

end

theorem stringLiteral_mem_literals (s : String) : (stringLiteral s).toList ∈ literals s := by
  rw [stringLiteral, String.toList_ofList]
  exact Language.append_mem_mul (Language.append_mem_mul (Set.mem_singleton ['"'])
    (flatMap_literalChar_mem_prod s.toList)) (Set.mem_singleton ['"'])

/-- A literal, and nothing else, is one token for its text. -/
theorem tokenize_of_mem_literals {s source : String} (h : source.toList ∈ literals s) :
    tokenize source = .ok [⟨.str s, ⟨0, source.utf8ByteSize⟩⟩] := by
  obtain ⟨_, hopen, _, rfl, hsource⟩ := Language.mem_mul.1 h
  obtain ⟨_, rfl, body, hbody, rfl⟩ := Language.mem_mul.1 hopen
  have hword : Word (.str (.ofList s.toList)) ('"' :: body ++ ['"']) [] :=
    .str (spelled_of_mem_prod hbody)
  have hscans : Scans [] 0 ('"' :: body ++ ['"'] ++ []) _ := .word hword .nil
  have hwidth : width ('"' :: body ++ ['"']) = source.utf8ByteSize := by
    rw [width_eq_utf8ByteSize, ← String.ofList_toList (s := source), ← hsource]
    rfl
  rw [List.append_nil, String.ofList_toList, Nat.zero_add, hwidth] at hscans
  refine tokenize_eq_ok_iff.2 (scan_eq_ok_iff.2 ?_)
  rw [← hsource]
  exact hscans

/-! ## Top theorem -/

/-- Every text has literals, and each of them is read as the text and nothing else.  And whatever
looks like a literal has a body that is made of units in one way; taking the escapes out of it never
comes to a backslash with nothing behind it, and gives what the units stand for. -/
theorem string_literals :
    (∀ s : String, (stringLiteral s).toList ∈ literals s ∧
      ∀ source : String, source.toList ∈ literals s →
        tokenize source = .ok [⟨.str s, ⟨0, source.utf8ByteSize⟩⟩]) ∧
    ∀ slice ∈ Pattern.str.language, ∃ (body : List Char) (units : List (List Char)),
      slice = '"' :: body ++ ['"'] ∧
      (∀ units', Splits body units' ↔ units' = units) ∧
      unescapeOnto? "" body = some (unescape body) ∧
      (unescape body).toList = units.flatMap unitText := by
  refine ⟨fun s => ⟨stringLiteral_mem_literals s, fun _ => tokenize_of_mem_literals⟩, ?_⟩
  intro slice hslice
  obtain ⟨body, units, rfl, hsplits⟩ := exists_splits_of_mem_str hslice
  refine ⟨body, units, rfl, fun units' => ⟨hsplits.unique, ?_⟩,
    hsplits.spelled.unescapeOnto?_eq_some "", ?_⟩
  · rintro rfl
    exact hsplits
  · rw [hsplits.spelled.unescape_eq, String.toList_ofList]

/-- A line feed as it is and one as an escape, with a backslash before the closing quote; and a body
that begins with a pair that is no escape. -/
theorem string_literals_of_mixture :
    tokenize "\"é\n\\n\\\\\"" = .ok [⟨.str "é\n\n\\", ⟨0, 9⟩⟩] ∧
      let body := ['\\', 'q', '\\', '\\', '\\', 'n']
      Splits body [['\\', 'q'], ['\\', '\\'], ['\\', 'n']] ∧
        unescapeOnto? "" body = some (unescape body) ∧
        (unescape body).toList = ['\\', 'q', '\\', '\n'] := by
  constructor
  · have hbody : ['é'] ++ (['\n'] ++ (['\\', 'n'] ++ (['\\', '\\'] ++ []))) ∈
        ("é\n\n\\".toList.map spellings).prod :=
      Language.append_mem_mul (Set.mem_singleton ['é']) <|
        Language.append_mem_mul (.inl (Set.mem_singleton ['\n'])) <|
        Language.append_mem_mul (.inr (Set.mem_singleton ['\\', 'n'])) <|
        Language.append_mem_mul (Set.mem_singleton ['\\', '\\']) Language.nil_mem_one
    have hsource : "\"é\n\\n\\\\\"".toList ∈ literals "é\n\n\\" :=
      Language.append_mem_mul (Language.append_mem_mul (Set.mem_singleton ['"']) hbody)
        (Set.mem_singleton ['"'])
    exact (string_literals.1 "é\n\n\\").2 _ hsource
  · intro body
    have hsplits : Splits body [['\\', 'q'], ['\\', '\\'], ['\\', 'n']] := by
      refine ⟨rfl, fun hu => ?_⟩
      simp only [List.mem_cons, List.not_mem_nil, or_false] at hu
      rcases hu with rfl | rfl | rfl <;> exact Pattern.mem_unit.2 (.inr ⟨_, by decide, rfl⟩)
    have hslice : '"' :: body ++ ['"'] ∈ Pattern.str.language :=
      Pattern.mem_str.2 ⟨body, _, hsplits.spelled, rfl⟩
    obtain ⟨body', units, heq, hunits, hclosed, htext⟩ := string_literals.2 _ hslice
    obtain rfl : body = body' := List.append_cancel_right (List.cons.inj heq).2
    rw [← (hunits _).1 hsplits] at htext
    exact ⟨hsplits, hclosed, htext⟩

end MonkeyLang.Token
