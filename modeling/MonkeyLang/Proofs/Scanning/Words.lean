import Mathlib.Order.CompletePartialOrder
import MonkeyLang.Program.Source
import MonkeyLang.Proofs.Scanning.Scans

/-!
# Texts of words

How a text is put together from words without looking at where they come to stand.  `Lexes next
text L` says that the text is lexemes of the language `L` before every text of the kind `next`, so
texts can be put one behind the other as long as each is what the one before it asks for
(`Lexes.append`).

A fixed word, a name and a number ask for a text that does not go on with them (`Apart`); a bracket,
a string literal and a space do not mind what follows.
-/

namespace MonkeyLang.Token

/-! ## Languages of lexemes -/

/-- A text that does not go on with a name or a number before it, nor with a sign. -/
def Apart (cs : List Char) : Prop := ∀ c ∈ cs.head?, isNameRest c = false ∧ c ≠ '=' ∧ c ≠ '/'

def Anything (_ : List Char) : Prop := True

/-- Before every text of the kind `next`, the text is lexemes of the language. -/
def Lexes (next : List Char → Prop) (text : String) (L : Language Lexeme) : Prop :=
  ∀ rest n, next rest → ∃ ls ∈ L, Scans rest n text.toList ls

/-- The token, wherever it stands. -/
def word (t : Token) : Language Lexeme := {ls | ∃ a, ls = [⟨t, a⟩]}

/-- A name that is no fixed word. -/
def IsName (x : String) : Prop := x.toList ∈ Pattern.name.language ∧ reserved? x = none

variable {next next' : List Char → Prop} {text text' : String} {L M : Language Lexeme}

theorem Lexes.mono (h : Lexes next text L) (hLM : L ≤ M) : Lexes next text M := by
  intro rest n hrest
  obtain ⟨ls, hls, hscans⟩ := h rest n hrest
  exact ⟨ls, hLM hls, hscans⟩

theorem Lexes.before (h : Lexes Anything text L) : Lexes next text L :=
  fun rest n _ => h rest n trivial

/-- One text behind another, if it is what the first one may have behind it. -/
theorem Lexes.append (h : Lexes next text L) (h' : Lexes next' text' M)
    (hnext : ∀ rest, next' rest → next (text'.toList ++ rest)) :
    Lexes next' (text ++ text') (L * M) := by
  intro rest n hrest
  obtain ⟨ms, hms, hscans'⟩ := h' rest (n + width text.toList) hrest
  obtain ⟨ls, hls, hscans⟩ := h _ n (hnext rest hrest)
  rw [String.toList_append]
  exact ⟨ls ++ ms, Language.append_mem_mul hls hms, hscans.append hscans'⟩

/-- Behind a text that does not mind. -/
theorem Lexes.append_anything (h : Lexes Anything text L) (h' : Lexes next' text' M) :
    Lexes next' (text ++ text') (L * M) :=
  h.append h' fun _ _ => trivial

theorem apart_of_toList {c : Char} {cs : List Char}
    (hc : isNameRest c = false ∧ c ≠ '=' ∧ c ≠ '/') (htext : text.toList = c :: cs)
    (rest : List Char) : Apart (text.toList ++ rest) := by
  rw [htext]
  rintro d ⟨⟩
  exact hc

/-- Behind a text that asks for another to stand apart. -/
theorem Lexes.append_apart (h : Lexes Apart text L) (h' : Lexes next' text' M) {c : Char}
    {cs : List Char} (hc : isNameRest c = false ∧ c ≠ '=' ∧ c ≠ '/')
    (htext : text'.toList = c :: cs) :
    Lexes next' (text ++ text') (L * M) :=
  h.append h' fun rest _ => apart_of_toList hc htext rest

/-! ## Single words -/

theorem lexes_empty : Lexes next "" 1 := fun _ _ _ => ⟨[], rfl, .nil⟩

theorem lexes_space : Lexes next " " 1 := fun _ _ _ => ⟨[], rfl, .space rfl .nil⟩

theorem lexes_of_word {t : Token} (h : ∀ rest, next rest → Word t text.toList rest) :
    Lexes next text (word t) := by
  intro rest n hrest
  have hscans : Scans rest n (text.toList ++ []) _ := .word (h rest hrest) .nil
  rw [List.append_nil] at hscans
  exact ⟨_, ⟨_, rfl⟩, hscans⟩

theorem Apart.ends {rest : List Char} (h : Apart rest) : Ends isNameRest rest :=
  fun c hc => (h c hc).1

theorem Apart.ends_isDigit {rest : List Char} (h : Apart rest) : Ends Char.isDigit rest := by
  intro c hc
  rw [Bool.eq_false_iff]
  intro hdigit
  exact Bool.false_ne_true ((h c hc).1.symm.trans (isNameRest_of_isDigit hdigit))

theorem Apart.not_joins {rest : List Char} (h : Apart rest) (c : Char) :
    ∀ d ∈ rest.head?, ¬ Joins c d := by
  rintro d hd (⟨-, rfl⟩ | ⟨-, rfl⟩)
  · exact (h _ hd).2.2 rfl
  · exact (h _ hd).2.1 rfl

/-- A fixed word apart from the next text is that word. -/
theorem word_display {t : Token} {rest : List Char} (ht : t ∈ fixedWords) (hrest : Apart rest) :
    Word t t.display.toList rest := by
  rcases cases_of_mem_fixedWords ht with ⟨hres, c, cs, hw, hc, hcs⟩ | ⟨c, hw, hc⟩ | rfl | rfl
  · have hword : Word _ (c :: cs) rest := .name hc hcs hrest.ends
    rw [← hw, String.ofList_toList, hres] at hword
    exact hword
  · rw [hw]
    exact .sign hc (hrest.not_joins c)
  · exact .eqEq
  · exact .notEq

theorem lexes_display {t : Token} (ht : t ∈ fixedWords) : Lexes Apart t.display (word t) :=
  lexes_of_word fun _ hrest => word_display ht hrest

/-- A fixed word with a space behind it. -/
theorem lexes_spaced {t : Token} (ht : t ∈ fixedWords) (htext : text = t.display ++ " ") :
    Lexes next text (word t) := by
  have h : Lexes next (t.display ++ " ") (word t * 1) :=
    (lexes_display ht).append_apart lexes_space (by decide) rfl
  rwa [mul_one, ← htext] at h

/-- A sign that is never read together with another. -/
theorem lexes_sign {c : Char} {t : Token} (ht : sign? c = some t) (hc : c ∉ ['/', '=', '!'])
    (htext : text.toList = [c]) : Lexes next text (word t) := by
  refine lexes_of_word fun rest _ => ?_
  rw [htext]
  exact .sign ht fun d _ => not_joins hc d

/-- A name apart from the next text is that name. -/
theorem word_name {x : String} {rest : List Char} (h : IsName x) (hrest : Apart rest) :
    Word (.ident x) x.toList rest := by
  obtain ⟨c, cs, hx, hc, hcs⟩ := mem_single_mul_kstar.1 h.1
  have hword : Word _ (c :: cs) rest :=
    .name (isNameStart_iff.2 hc) (fun d hd => isNameRest_iff.2 (hcs d hd)) hrest.ends
  rw [← hx, String.ofList_toList, h.2] at hword
  exact hword

theorem lexes_name {x : String} (h : IsName x) : Lexes Apart x (word (.ident x)) :=
  lexes_of_word fun _ hrest => word_name h hrest

/-- An integer apart from the next text is that integer, if it has no sign. -/
theorem word_int {n : Int64} {rest : List Char} (h : 0 ≤ n.toInt) (hrest : Apart rest) :
    Word (.int n) (toString n.toInt).toList rest := by
  obtain ⟨m, hm⟩ := Int.eq_ofNat_of_zero_le h
  have htext : toString n.toInt = String.ofList (Nat.toDigits 10 m) := by
    rw [hm, ← Nat.toString_eq_ofList_toDigits]
    rfl
  have hvalue : Text.natOfDigits (Nat.toDigits 10 m) = m := Nat.ofDigitChars_ten_toDigits
  rw [htext, String.toList_ofList]
  refine .int Nat.toDigits_ne_nil ?_ ?_ ?_
  · exact fun c hc => Nat.isDigit_of_mem_toDigits (by decide) (by decide) hc
  · rw [hvalue, hm]
  · exact hrest.ends_isDigit

theorem lexes_int {n : Int64} (h : 0 ≤ n.toInt) :
    Lexes Apart (toString n.toInt) (word (.int n)) :=
  lexes_of_word fun _ hrest => word_int h hrest

/-- A text with the needed escapes stands for itself. -/
theorem spelled_flatMap_literalChar (t : List Char) : Spelled (t.flatMap literalChar) t := by
  induction t with
  | nil => exact .nil
  | cons c t ih =>
    rw [List.flatMap_cons, literalChar]
    split
    · next hc =>
      refine .known ?_ ih
      rcases hc with rfl | rfl <;> rfl
    · next hc => exact .plain (fun h => hc (.inl h)) (fun h => hc (.inr h)) ih

theorem lexes_stringLiteral (t : String) : Lexes next (stringLiteral t) (word (.str t)) := by
  refine lexes_of_word fun rest _ => ?_
  rw [stringLiteral, String.toList_ofList]
  have hword : Word _ _ rest := .str (spelled_flatMap_literalChar t.toList)
  rwa [String.ofList_toList] at hword

/-! ## Brackets and commas -/

/-- Parentheses, in which anything may stand. -/
theorem lexes_parens (h : Lexes Apart text L) :
    Lexes next (parens text) (word .lparen * L * word .rparen) := by
  have hopen : Lexes Anything "(" (word .lparen) := lexes_sign rfl (by decide) rfl
  have hclose : Lexes next ")" (word .rparen) := lexes_sign rfl (by decide) rfl
  exact (hopen.append_anything h).append_apart hclose (by decide) rfl

theorem apart_parens (text : String) (rest : List Char) : Apart ((parens text).toList ++ rest) := by
  have htext : (parens text).toList = '(' :: (text.toList ++ [')']) := by
    rw [parens, String.toList_append, String.toList_append]
    rfl
  exact apart_of_toList (by decide) htext rest

theorem apart_comma (rest : List Char) : Apart (", ".toList ++ rest) :=
  apart_of_toList (by decide) rfl rest

/-- Items with a comma between each two are the list of what the items are. -/
theorem lexes_intercalate {α : Type} {source : α → String} {item : α → Language Lexeme}
    {list : List α → Language Lexeme} (hnil : [] ∈ list []) (hone : ∀ a, item a ≤ list [a])
    (hcons : ∀ a b as, item a * (word .comma * list (b :: as)) ≤ list (a :: b :: as))
    (hnext : ∀ rest, next (", ".toList ++ rest)) {as : List α}
    (h : ∀ a ∈ as, Lexes next (source a) (item a)) :
    Lexes next (", ".intercalate (as.map source)) (list as) := by
  induction as with
  | nil => exact lexes_empty.mono (by rintro _ rfl; exact hnil)
  | cons a as ih =>
    obtain ⟨ha, has⟩ := List.forall_mem_cons.1 h
    cases as with
    | nil => exact ha.mono (hone a)
    | cons b as =>
      have hcomma : Lexes Anything ", " (word .comma) := lexes_spaced (by decide) rfl
      rw [List.map_cons, List.map_cons, String.intercalate_cons_cons, String.append_assoc]
      refine (ha.append (hcomma.append_anything (ih has)) fun rest _ => ?_).mono (hcons a b as)
      rw [String.toList_append, List.append_assoc]
      exact hnext _

end MonkeyLang.Token
