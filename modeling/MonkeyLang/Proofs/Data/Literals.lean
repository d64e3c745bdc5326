import MonkeyLang.Proofs.Data.Datum
import MonkeyLang.Proofs.Parsing.Printed

/-!
# Texts of plain data as sources

The text of a datum is the source of its literal (`Datum.lexes_text`), so it compiles to a program
that has this one expression (`Datum.exists_compile_text`).

The least integer is the exception: it has no literal, since the sign is no part of one, and what
stands behind the sign is too large.  With this integer anywhere in a datum the scan ends there
(`Datum.overflows_text`).
-/

namespace MonkeyLang

open Token Grammar

/-! ## Integers -/

/-- No integer but the least is its own negative. -/
theorem toInt_neg_of_ne_minValue {n : Int64} (h : n ≠ .minValue) : (-n).toInt = -n.toInt := by
  have hne : n.toInt ≠ Int64.minValue.toInt := fun he => h (Int64.toInt_inj.1 he)
  have hmin := n.minValue_le_toInt
  have hmax := n.toInt_lt
  rw [Int64.toInt_minValue] at hne hmin
  rw [Int64.toInt_neg, Int.bmod_eq_of_le (by omega) (by omega)]

/-- An integer below zero is shown with a sign before the integer above zero. -/
theorem toString_of_lt_zero {i : Int} (h : i < 0) : toString i = "-" ++ toString (-i) := by
  rw [Int.toString_eq_repr, Int.toString_eq_repr, Int.repr_eq_if, Int.repr_eq_if,
    if_neg (by omega), if_pos (by omega)]

namespace Scalar

variable {limit d : Nat}

/-- A key is an expression of two levels at most, for its sign. -/
theorem lexes_text {a : Scalar} (ha : a ≠ .int .minValue) (hd : d + 2 ≤ limit) :
    Lexes Apart a.text (phrases limit d a.literal) := by
  cases a with
  | int n =>
    rw [text, literal]
    split
    · next hn =>
      -- negation wraps around, but not here, so there is a literal behind the sign
      have hneg := toInt_neg_of_ne_minValue fun h => ha (congrArg int h)
      have hsign : Lexes Anything "-" (word .minus) := lexes_sign rfl (by decide) rfl
      have hnat : Lexes Apart (toString (-n).toInt) (word (.int (-n))) :=
        lexes_int (by omega)
      have hoperand := hnat.mono (leaf_le_operands (a := ⟨0, 0⟩) rfl (by omega : d + 1 + 1 ≤ limit))
      rw [toString_of_lt_zero hn, ← hneg]
      exact (hsign.append_anything hoperand).mono (unary_le rfl _ _ (by omega))
    · next hn => exact (lexes_int (by omega)).mono (leaf_le rfl (by omega))
  | bool b =>
    have hleaf : leaf? ⟨if b then .trueWord else .falseWord, ⟨0, 0⟩⟩ = some (literal (bool b)) := by
      cases b <;> rfl
    have hword : Lexes Apart _ (word (if b then .trueWord else .falseWord)) :=
      lexes_display (by cases b <;> decide)
    have htext : (if b then Token.trueWord else .falseWord).display = text (bool b) := by
      cases b <;> rfl
    rw [htext] at hword
    exact hword.mono (leaf_le hleaf (by omega))

end Scalar

/-! ## Data without the least integer -/

namespace Datum

variable {limit d : Nat} {t : Datum}

/-- Two levels are left below the innermost array or table, for a sign and the integer behind it. -/
theorem lexes_text (ht : ¬ t.HasInt .minValue) (hd : d + t.depth + 2 ≤ limit) :
    Lexes Apart t.text (phrases limit d t.literal) := by
  induction t generalizing d with
  | scalar a =>
    refine a.lexes_text ?_ (by omega)
    rintro rfl
    exact ht .leaf
  | null =>
    have hword : Lexes Apart "null" (word .nullWord) := lexes_display (by decide)
    exact hword.mono (leaf_le rfl (by omega))
  | array ts ih =>
    have hitems : Lexes Apart (", ".intercalate (ts.map text))
        (items limit (d + 1) (ts.map literal)) := by
      refine lexes_items apart_comma fun t hmem => ?_
      have hdepth := depth_lt_array hmem
      exact ih t hmem (fun h => ht (.item hmem h)) (by omega)
    rw [text_array, literal_array]
    exact lexes_brackets hitems (by omega)
  | table es ih =>
    have hpairs : Lexes Apart (", ".intercalate (es.map fun e => e.1.text ++ ": " ++ e.2.text))
        (pairs limit (d + 1) (es.map fun e => (e.1.literal, e.2.literal))) := by
      refine lexes_pairs apart_comma fun e hmem => ?_
      have hdepth := depth_lt_table hmem
      have hkey : Lexes Apart e.1.text (phrases limit (d + 1) e.1.literal) :=
        e.1.lexes_text (fun h => ht (.key hmem h)) (by omega)
      have hvalue : Lexes Apart e.2.text (phrases limit (d + 1) e.2.literal) :=
        ih e hmem (fun h => ht (.value hmem h)) (by omega)
      have hcolon : Lexes Anything ": " (word .colon) := lexes_spaced (by decide) rfl
      have hpair := (hkey.append_apart hcolon (by decide) rfl).append_anything hvalue
      rwa [mul_assoc] at hpair
    rw [text_table, literal_table]
    exact lexes_braces hpairs (by omega)

/-- The text of a datum is a program of one statement, the literal of the datum. -/
theorem exists_compile_text (ht : ¬ t.HasInt .minValue) (hd : t.depth + 2 ≤ nestingLimit) :
    ∃ p, compile t.text = .ok p ∧ p.bare = Program.bare ⟨[.expr t.literal ⟨0, 0⟩]⟩ := by
  have hlexes : Lexes Apart t.text (phrases nestingLimit 0 t.literal) := lexes_text ht (by omega)
  obtain ⟨ls, ⟨e, ⟨k, he⟩, hbare⟩, hscans⟩ := hlexes [] 0 nofun
  have hstatement := (Statement.expr he .absent).derives
  rw [List.append_nil] at hstatement
  refine ⟨⟨_⟩, compile_eq_ok_iff.2 ⟨ls, scan_eq_ok_iff.2 hscans,
    parseWithin_eq_ok_iff.2 hstatement⟩, ?_⟩
  exact congrArg (fun e => Program.mk [.expr e ⟨0, 0⟩]) hbare

end Datum

/-! ## Data with the least integer -/

/-- The integer above the greatest one.  Behind a sign, it is how the least one is shown. -/
def tooLarge : String := "9223372036854775808"

/-- Before a text that stands apart, the text is lexemes up to an integer that is too large. -/
def Overflows (text : String) : Prop :=
  ∀ rest n, Apart rest → ∃ before after ls,
    text.toList ++ rest = before ++ (tooLarge.toList ++ after) ∧ Ends Char.isDigit after ∧
      Scans (tooLarge.toList ++ after) n before ls

/-- The number by itself, and nothing is read after it. -/
theorem overflows_tooLarge : Overflows tooLarge :=
  fun rest _ hrest => ⟨[], rest, [], rfl, hrest.ends_isDigit, .nil⟩

namespace Overflows

variable {text text' : String} {L : Language Lexeme}

/-- What stands behind the number makes no difference. -/
theorem append (h : Overflows text) {c : Char} {cs : List Char}
    (hc : isNameRest c = false ∧ c ≠ '=' ∧ c ≠ '/') (htext : text'.toList = c :: cs) :
    Overflows (text ++ text') := by
  intro rest n _
  rw [String.toList_append, List.append_assoc]
  exact h _ n (apart_of_toList hc htext rest)

theorem behind (h' : Overflows text') (h : Lexes Anything text L) : Overflows (text ++ text') := by
  intro rest n hrest
  obtain ⟨before, after, ls, htext, hafter, hscans⟩ := h' rest (n + width text.toList) hrest
  obtain ⟨ms, -, hms⟩ := h (text'.toList ++ rest) n trivial
  rw [htext] at hms
  refine ⟨text.toList ++ before, after, ms ++ ls, ?_, hafter, hms.append hscans⟩
  rw [String.toList_append, List.append_assoc, htext, List.append_assoc]

/-- Of texts with commas between them, some overflow and the others are lexemes. -/
theorem intercalate {α : Type} {source : α → String} {as : List α}
    (h : ∀ a ∈ as, ¬ Overflows (source a) → ∃ L, Lexes Apart (source a) L) {a : α} (ha : a ∈ as)
    (hover : Overflows (source a)) : Overflows (", ".intercalate (as.map source)) := by
  induction as with
  | nil => cases ha
  | cons b as ih =>
    obtain ⟨hb, has⟩ := List.forall_mem_cons.1 h
    cases as with
    | nil => rwa [List.mem_singleton.1 ha] at hover
    | cons c as =>
      rw [List.map_cons, List.map_cons, String.intercalate_cons_cons]
      by_cases hfirst : Overflows (source b)
      · rw [String.append_assoc]
        exact hfirst.append (by decide) String.toList_append
      · obtain ⟨L, hL⟩ := hb hfirst
        have hcomma : Lexes Anything ", " (word .comma) := lexes_spaced (by decide) rfl
        rcases List.mem_cons.1 ha with rfl | ha
        · exact absurd hover hfirst
        · exact (ih has ha).behind (hL.append_apart hcomma (by decide) rfl)

/-- The error is about the number, wherever it stands. -/
theorem tokenize_eq (h : Overflows text) :
    ∃ a, tokenize text = .error (.lexer ("integer literal out of range: " ++ tooLarge) a) := by
  obtain ⟨before, after, ls, htext, hafter, hscans⟩ := h [] 0 nofun
  have hdigits : tooLarge.toList.all Char.isDigit = true := by decide
  have hpiece : firstPiece '9' ("223372036854775808".toList ++ after) =
      ⟨.bad (.outOfRange tooLarge), tooLarge.toList, after⟩ :=
    firstPiece_of_maxInt_lt (List.all_eq_true.1 hdigits) (by decide) hafter
  rw [List.append_nil] at htext
  have hscan := hscans.scan_eq_error (congrArg Piece.kind hpiece)
  rw [tokenize, ← text.ofList_toList, htext]
  exact ⟨_, congrArg (Except.mapError _) hscan⟩

end Overflows

/-- The least integer is shown with a number that is too large. -/
theorem Scalar.overflows_text : Overflows (Scalar.text (.int .minValue)) := by
  have htext : Scalar.text (.int .minValue) = "-" ++ tooLarge := by decide
  have hsign : Lexes Anything "-" (word .minus) := lexes_sign rfl (by decide) rfl
  rw [htext]
  exact overflows_tooLarge.behind hsign

theorem Scalar.exists_lexes_text {a : Scalar} (ha : a ≠ .int .minValue) :
    ∃ L, Lexes Apart a.text L := by
  have h : Lexes Apart a.text (phrases 2 0 a.literal) := a.lexes_text ha (Nat.le_refl 2)
  exact ⟨_, h⟩

namespace Datum

/-- Without the least integer, each text can be scanned. -/
theorem exists_lexes_text {t : Datum} (ht : ¬ t.HasInt .minValue) : ∃ L, Lexes Apart t.text L := by
  -- the scanner does not count levels, so the limit can be whatever this datum takes
  have h : Lexes Apart t.text (phrases (t.depth + 2) 0 t.literal) := lexes_text ht (by omega)
  exact ⟨_, h⟩

/-- An entry overflows by its key, or else by its value. -/
theorem overflows_entry {a : Scalar} {t : Datum} (ht : a ≠ .int .minValue → Overflows t.text) :
    Overflows (a.text ++ ": " ++ t.text) := by
  by_cases ha : a = .int .minValue
  · rw [ha, String.append_assoc]
    exact Scalar.overflows_text.append (by decide) String.toList_append
  · have hcolon : Lexes Anything ": " (word .colon) := lexes_spaced (by decide) rfl
    obtain ⟨L, hL⟩ := Scalar.exists_lexes_text ha
    exact (ht ha).behind (hL.append_apart hcolon (by decide) rfl)

theorem exists_lexes_entry {a : Scalar} {t : Datum} (ha : a ≠ .int .minValue)
    (ht : ¬ t.HasInt .minValue) : ∃ L, Lexes Apart (a.text ++ ": " ++ t.text) L := by
  have hcolon : Lexes Anything ": " (word .colon) := lexes_spaced (by decide) rfl
  obtain ⟨L, hL⟩ := Scalar.exists_lexes_text ha
  obtain ⟨M, hM⟩ := exists_lexes_text ht
  exact ⟨_, (hL.append_apart hcolon (by decide) rfl).append_anything hM⟩

/-- A datum with the least integer in it cannot be scanned. -/
theorem overflows_text {t : Datum} (ht : t.HasInt .minValue) : Overflows t.text := by
  induction t with
  | scalar a =>
    cases ht
    exact Scalar.overflows_text
  | null => cases ht
  | array ts ih =>
    have hopen : Lexes Anything "[" (word .lbracket) := lexes_sign rfl (by decide) rfl
    cases ht with
    | @item _ t hmem hint =>
      have hitems : Overflows (", ".intercalate (ts.map text)) := by
        refine .intercalate (fun u hu hover => exists_lexes_text fun h => hover ?_) hmem
          (ih t hmem hint)
        exact ih u hu h
      rw [text_array]
      exact (hitems.behind hopen).append (by decide) rfl
  | table es ih =>
    have hopen : Lexes Anything "\x7b" (word .lbrace) := lexes_sign rfl (by decide) rfl
    have hentry : ∀ e ∈ es, ¬ Overflows (e.1.text ++ ": " ++ e.2.text) →
        ∃ L, Lexes Apart (e.1.text ++ ": " ++ e.2.text) L := by
      intro e he hover
      refine exists_lexes_entry (fun hkey => hover ?_) fun hvalue => hover ?_
      · exact overflows_entry fun hne => absurd hkey hne
      · exact overflows_entry fun _ => ih e he hvalue
    obtain ⟨e, he, hover⟩ : ∃ e ∈ es, Overflows (e.1.text ++ ": " ++ e.2.text) := by
      cases ht with
      | @key _ e he hkey => exact ⟨e, he, overflows_entry fun hne => absurd hkey hne⟩
      | @value _ e he hint => exact ⟨e, he, overflows_entry fun _ => ih e he hint⟩
    rw [text_table]
    exact ((Overflows.intercalate hentry he hover).behind hopen).append (by decide) rfl

end Datum

end MonkeyLang
