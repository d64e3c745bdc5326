import Mathlib.Computability.Language
import MonkeyLang.Token.Scan

/-!
# Patterns

What the pieces of a source text can look like, as regular languages and without the scanner.
Blanks and comments are gaps; every other piece is a token.  At a place in a text the longest piece
counts that fits any pattern, and a fixed word goes before a name (`Munch`).

The token is determined by the piece and its pattern (`Reads`): digits are a number in decimals,
leading zeros allowed, and a string literal is the text that its body stands for (`Spelled`).
-/

namespace MonkeyLang.Token

open Computability

/-! ## Languages -/

/-- The texts of one character of a class. -/
def single (p : Char → Prop) : Language Char := {w | ∃ c, p c ∧ w = [c]}

/-- One or more characters of a class. -/
def run (p : Char → Prop) : Language Char := single p * (single p)∗

/-- The tokens that are always written in the same way. -/
def fixedWords : List Token :=
  [letWord, ifWord, elseWord, trueWord, falseWord, nullWord, assign, plus, minus, star, slash, bang,
   lt, gt, eqEq, notEq, comma, semi, colon, lparen, rparen, lbrace, rbrace, lbracket, rbracket]

/-- The kinds of pieces that a source is cut into. -/
inductive Pattern where
  | blank
  | comment
  | fixed (t : Token)
  | int
  | str
  | name

namespace Pattern

/-- What stands for one character of a text between quotes. -/
def unit : Language Char :=
  single (fun c => c ≠ '"' ∧ c ≠ '\\') + {['\\']} * single (· ≠ '\n')

/-- The pieces of a kind. -/
def language : Pattern → Language Char
  | blank => run (· ∈ [' ', '\t', '\n', '\r'])
  | comment => {['/', '/']} * (single (· ≠ '\n'))∗
  | fixed t => {w | t ∈ fixedWords ∧ w = t.display.toList}
  | int => run (·.isDigit)
  | str => {['"']} * unit∗ * {['"']}
  | name => single (fun c => c.isAlpha ∨ c = '_') * (single (fun c => c.isAlphanum ∨ c = '_'))∗

/-- Any number of blanks and comments. -/
def layout : Language Char := (language blank + language comment)∗

end Pattern

/-! ## Pieces -/

/-- At the head of `cs`, the piece `w` is the one that counts, and it counts as a `p`. -/
structure Munch (cs w : List Char) (p : Pattern) : Prop where
  head : w <+: cs
  fits : w ∈ p.language
  longest : ∀ (q : Pattern) v, v <+: cs → v ∈ q.language → v.length ≤ w.length
  tie : ∀ q : Pattern, w ∈ q.language → q = p ∨ q = .name

/-- No piece at the head of `cs` fits a pattern. -/
def Unfit (cs : List Char) : Prop := ∀ (q : Pattern) w, w <+: cs → w ∉ q.language

/-- The body of a string literal, and the text that it stands for. -/
inductive Spelled : List Char → List Char → Prop
  | nil : Spelled [] []
  | plain {c : Char} {b t : List Char} (hq : c ≠ '"') (hb : c ≠ '\\') (h : Spelled b t) :
      Spelled (c :: b) (c :: t)
  | known {c e : Char} {b t : List Char} (he : escape? c = some e) (h : Spelled b t) :
      Spelled ('\\' :: c :: b) (e :: t)
  | other {c : Char} {b t : List Char} (he : escape? c = none) (hn : c ≠ '\n') (h : Spelled b t) :
      Spelled ('\\' :: c :: b) ('\\' :: c :: t)

/-- The token that a piece is by its pattern. -/
inductive Reads : Pattern → List Char → Token → Prop
  | fixed {w : List Char} {t : Token} : Reads (.fixed t) w t
  | int {w : List Char} {n : Int64} (hn : n.toInt = Text.natOfDigits w) : Reads .int w (.int n)
  | str {b t : List Char} (h : Spelled b t) :
      Reads .str ('"' :: b ++ ['"']) (.str (String.ofList t))
  | name {w : List Char} : Reads .name w (.ident (String.ofList w))

/-! ## Languages of classes -/

section

variable {p : Char → Prop} {w : List Char}

theorem mem_kstar_single : w ∈ (single p)∗ ↔ ∀ c ∈ w, p c := by
  constructor
  · intro h c hc
    obtain ⟨ws, rfl, hws⟩ := Language.mem_kstar.1 h
    obtain ⟨v, hv, hc⟩ := List.mem_flatten.1 hc
    obtain ⟨d, hd, rfl⟩ := hws v hv
    obtain rfl := List.mem_singleton.1 hc
    exact hd
  · intro h
    refine Language.mem_kstar.2 ⟨w.map ([·]), by simp [← List.flatMap_def], ?_⟩
    intro v hv
    obtain ⟨c, hc, rfl⟩ := List.mem_map.1 hv
    exact ⟨c, h c hc, rfl⟩

/-- A word of a class is a first character of one class and others of another. -/
theorem mem_single_mul_kstar {q : Char → Prop} :
    w ∈ single p * (single q)∗ ↔ ∃ c cs, w = c :: cs ∧ p c ∧ ∀ d ∈ cs, q d := by
  rw [Language.mem_mul]
  constructor
  · rintro ⟨_, ⟨c, hc, rfl⟩, cs, hcs, rfl⟩
    exact ⟨c, cs, rfl, hc, mem_kstar_single.1 hcs⟩
  · rintro ⟨c, cs, rfl, hc, hcs⟩
    exact ⟨[c], ⟨c, hc, rfl⟩, cs, mem_kstar_single.2 hcs, rfl⟩

theorem mem_run : w ∈ run p ↔ w ≠ [] ∧ ∀ c ∈ w, p c := by
  rw [run, mem_single_mul_kstar]
  constructor
  · rintro ⟨c, cs, rfl, hc, hcs⟩
    exact ⟨List.cons_ne_nil c cs, List.forall_mem_cons.2 ⟨hc, hcs⟩⟩
  · rintro ⟨hne, h⟩
    obtain ⟨c, cs, rfl⟩ := List.exists_cons_of_ne_nil hne
    obtain ⟨hc, hcs⟩ := List.forall_mem_cons.1 h
    exact ⟨c, cs, rfl, hc, hcs⟩

end

/-! ## String bodies -/

section

variable {b t cs : List Char}

/-- A body of a string literal is made of units. -/
theorem Spelled.mem_kstar_unit (h : Spelled b t) : b ∈ Pattern.unit∗ := by
  have cons : ∀ {u b : List Char}, u ∈ Pattern.unit → b ∈ Pattern.unit∗ →
      u ++ b ∈ Pattern.unit∗ := by
    intro u b hu hb
    rw [← Language.one_add_self_mul_kstar_eq_kstar]
    exact .inr (Language.append_mem_mul hu hb)
  have escaped : ∀ {c : Char}, c ≠ '\n' → ['\\'] ++ [c] ∈ Pattern.unit := fun hc =>
    .inr (Language.append_mem_mul (Set.mem_singleton _) ⟨_, hc, rfl⟩)
  induction h with
  | nil => exact Language.nil_mem_kstar _
  | plain hq hb _ ih => exact cons (.inl ⟨_, ⟨hq, hb⟩, rfl⟩) ih
  | known he _ ih =>
    refine cons (escaped ?_) ih
    rintro rfl
    cases he
  | other _ hn _ ih => exact cons (escaped hn) ih

/-- Units, one behind the other, stand for some text. -/
theorem exists_spelled_of_mem_kstar_unit (h : b ∈ Pattern.unit∗) : ∃ t, Spelled b t := by
  obtain ⟨us, rfl, hus⟩ := Language.mem_kstar.1 h
  clear h
  induction us with
  | nil => exact ⟨[], .nil⟩
  | cons u us ih =>
    obtain ⟨hu, hus⟩ := List.forall_mem_cons.1 hus
    obtain ⟨t, ht⟩ := ih hus
    rcases hu with ⟨c, ⟨hq, hb⟩, rfl⟩ | hu
    · exact ⟨c :: t, .plain hq hb ht⟩
    · obtain ⟨_, rfl, _, ⟨c, hc, rfl⟩, rfl⟩ := Language.mem_mul.1 hu
      cases he : escape? c with
      | none => exact ⟨_, .other he hc ht⟩
      | some e => exact ⟨_, .known he ht⟩

/-- A string literal is a body between quotes. -/
theorem Pattern.mem_str {w : List Char} :
    w ∈ Pattern.str.language ↔ ∃ b t, Spelled b t ∧ w = '"' :: b ++ ['"'] := by
  constructor
  · intro h
    obtain ⟨_, hopen, _, rfl, rfl⟩ := Language.mem_mul.1 h
    obtain ⟨_, rfl, b, hb, rfl⟩ := Language.mem_mul.1 hopen
    obtain ⟨t, ht⟩ := exists_spelled_of_mem_kstar_unit hb
    exact ⟨b, t, ht, rfl⟩
  · rintro ⟨b, t, h, rfl⟩
    have hopen : '"' :: b ∈ ({['"']} * Pattern.unit∗ : Language Char) :=
      Language.append_mem_mul (Set.mem_singleton ['"']) h.mem_kstar_unit
    exact Language.append_mem_mul hopen (Set.mem_singleton _)

/-! ## Scanning string bodies -/

/-- The scanner finds the end of a body, whatever follows its quote. -/
theorem Spelled.stringBody_eq (h : Spelled b t) (seen rest : List Char) :
    stringBody seen (b ++ '"' :: rest) = (seen.reverse ++ b, '"' :: rest) := by
  have hn : ∀ {c e : Char}, escape? c = some e → c ≠ '\n' := by
    rintro c e he rfl
    cases he
  induction h generalizing seen with
  | nil => rw [List.nil_append, stringBody] <;> simp
  | plain hq hb _ ih => rw [List.cons_append, stringBody] <;> simp_all
  | known he _ ih => simp [stringBody, hn he, ih]
  | other _ hc _ ih => simp [stringBody, hc, ih]

/-- The longest body at the head of a text. -/
theorem exists_spelled_stringBody (seen cs : List Char) :
    ∃ b t rest, Spelled b t ∧ cs = b ++ rest ∧ stringBody seen cs = (seen.reverse ++ b, rest) := by
  fun_induction stringBody seen cs with
  | case1 seen cs => exact ⟨[], [], _, .nil, rfl, by simp⟩
  | case2 seen c cs hc ih =>
    obtain ⟨b, t, rest, hb, rfl, heq⟩ := ih
    rw [heq]
    cases he : escape? c with
    | none => exact ⟨_, _, rest, .other he hc hb, rfl, by simp⟩
    | some e => exact ⟨_, _, rest, .known he hb, rfl, by simp⟩
  | case3 seen c cs _ hc => exact ⟨[], [], _, .nil, rfl, by simp⟩
  | case4 seen c cs _ hc ih =>
    obtain ⟨b, t, rest, hb, rfl, heq⟩ := ih
    rw [heq]
    exact ⟨_, _, rest, .plain (fun h => hc (.inl h)) (fun h => hc (.inr h)) hb, rfl, by simp⟩
  | case5 seen => exact ⟨[], [], [], .nil, rfl, by simp⟩

/-- What is computed for a body is the text that it stands for. -/
theorem Spelled.unescapeOnto_eq (h : Spelled b t) (text : String) :
    unescapeOnto text b = text ++ String.ofList t := by
  rw [← String.toList_inj]
  induction h generalizing text with
  | nil => simp [unescapeOnto]
  | plain hq hb _ ih => rw [unescapeOnto, ih] <;> simp_all
  | known he _ ih => simp [unescapeOnto, he, ih]
  | other he _ _ ih => simp [unescapeOnto, he, ih]

theorem Spelled.unescape_eq (h : Spelled b t) : unescape b = String.ofList t := by
  rw [unescape, h.unescapeOnto_eq, String.empty_append]

end

end MonkeyLang.Token
