import Mathlib.Data.List.Forall2
import MonkeyLang.Proofs.Scanning.MaximalMunch

/-!
# Texts laid out anew

The words of a source can be laid out in another way, as long as each two of them have a gap
between them that begins with a blank and ends its comments.  `relaid ws` has all texts that the
words `ws` can be laid out as.  Each of them scans as the tokens that the words were in the source:

    tokenize source = .ok ls → text ∈ relaid (words of ls) → tokenize text = .ok ls'
                                            where ls' has the tokens of ls  (tokenize_relaid)

A blank goes on with no token, so a word is the same word before it (`Word.of_head`).
-/

namespace MonkeyLang.Token

open Computability

/-! ## Layouts -/

namespace Pattern

/-- Blanks and comments, a blank first; a comment has the line feed that ends it. -/
def gap : Language Char := language blank * (language blank + language comment * {['\n']})∗

/-- A gap or nothing. -/
def margin : Language Char := 1 + gap

/-- The texts of these words in this order, with gaps between them and margins around them. -/
def relaid (words : List (List Char)) : Language Char :=
  margin * ((words.map ({·})).intersperse gap).prod * margin

end Pattern

open Pattern (gap margin relaid)

section

variable {g w rest : List Char} {n : Nat}

/-! ## Gaps -/

theorem scans_blank (hw : w ∈ Pattern.blank.language) : Scans rest n w [] := by
  have hspaces : ∀ c ∈ w, isSpace c := fun c hc => isSpace_iff.2 ((mem_run.1 hw).2 c hc)
  have h : Scans rest n (w ++ []) [] := .spaces hspaces .nil
  rwa [List.append_nil] at h

/-- A comment is no token, if the line feed that ends it is there. -/
theorem scans_comment (hw : w ∈ Pattern.comment.language * {['\n']}) : Scans rest n w [] := by
  obtain ⟨_, hcomment, _, rfl, rfl⟩ := Language.mem_mul.1 hw
  obtain ⟨_, rfl, b, hb, rfl⟩ := Language.mem_mul.1 hcomment
  refine .comment (fun h => mem_kstar_single.1 hb _ h rfl) ?_ (.space rfl .nil)
  rintro c ⟨⟩
  rfl

theorem scans_gap (hg : g ∈ gap) : Scans rest n g [] := by
  obtain ⟨w, hw, v, hv, rfl⟩ := Language.mem_mul.1 hg
  obtain ⟨ws, rfl, hws⟩ := Language.mem_kstar.1 hv
  show Scans rest n (w ++ ws.flatten) ([] ++ [])
  refine (scans_blank hw).append ?_
  generalize n + width w = m
  clear hv hg
  induction ws generalizing m with
  | nil => exact .nil
  | cons u ws ih =>
    obtain ⟨hu, hws⟩ := List.forall_mem_cons.1 hws
    show Scans rest m (u ++ ws.flatten) ([] ++ [])
    refine Scans.append ?_ (ih hws _)
    rcases hu with hu | hu
    · exact scans_blank hu
    · exact scans_comment hu

/-- A gap stands apart from the word before it. -/
theorem separates_of_mem_gap (hg : g ∈ gap) : ∀ c ∈ (g ++ rest).head?, separates c := by
  obtain ⟨w, hw, v, -, rfl⟩ := Language.mem_mul.1 hg
  obtain ⟨c, cs, rfl, hc, -⟩ := mem_single_mul_kstar.1 hw
  rintro _ ⟨⟩
  simp only [List.mem_cons, List.not_mem_nil, or_false] at hc
  rcases hc with rfl | rfl | rfl | rfl <;> rfl

theorem scans_margin (hg : g ∈ margin) : Scans rest n g [] := by
  rcases hg with rfl | hg
  · exact .nil
  · exact scans_gap hg

theorem separates_of_mem_margin (hg : g ∈ margin) : ∀ c ∈ g.head?, separates c := by
  rcases hg with rfl | hg
  · exact nofun
  · have h : ∀ c ∈ (g ++ []).head?, separates c := separates_of_mem_gap hg
    rwa [List.append_nil] at h

/-! ## Words -/

/-- The words are the tokens of the lexemes, before some text or other. -/
def Spoken (ls : List Lexeme) (ws : List (List Char)) : Prop :=
  List.Forall₂ (fun l w => ∃ after, Word l.token w after) ls ws

/-- Words with gaps between them are their tokens, whatever the gaps are. -/
theorem scans_words {ls : List Lexeme} {ws : List (List Char)} (h : Spoken ls ws)
    {text : List Char} (htext : text ∈ ((ws.map ({·})).intersperse gap).prod)
    (hrest : ∀ c ∈ rest.head?, separates c) :
    ∃ ls', ls'.map (·.token) = ls.map (·.token) ∧ Scans rest n text ls' := by
  induction h generalizing text n with
  | nil =>
    obtain rfl : text = [] := htext
    exact ⟨[], rfl, .nil⟩
  | @cons l w ls ws hw hws ih =>
    obtain ⟨after, hw⟩ := hw
    cases ws with
    | nil =>
      cases hws
      have htext : text ∈ ({w} : Language Char) * 1 := htext
      rw [mul_one] at htext
      obtain rfl : text = w := htext
      have hword : Word l.token text ([] ++ rest) := hw.of_head fun c hc => .inr (hrest c hc)
      have hscans := Scans.word (n := n) hword .nil
      rw [List.append_nil] at hscans
      refine ⟨_, ?_, hscans⟩
      rfl
    | cons w' ws =>
      rw [List.map_cons, List.map_cons, List.intersperse_cons_cons, List.prod_cons,
        List.prod_cons] at htext
      obtain ⟨v, hv, _, hothers, rfl⟩ := Language.mem_mul.1 htext
      obtain ⟨g, hg, words, hwords, rfl⟩ := Language.mem_mul.1 hothers
      rw [show v = w from hv]
      obtain ⟨ls', htokens, hscans⟩ := ih (n := n + width w + width g) hwords
      have hgap : Scans rest (n + width w) (g ++ words) ls' := (scans_gap hg).append hscans
      -- the word may have stood before anything, but a blank goes on with no token
      refine ⟨⟨l.token, _⟩ :: ls', by rw [List.map_cons, htokens]; rfl, .word ?_ hgap⟩
      refine hw.of_head fun c hc => .inr ?_
      rw [List.append_assoc] at hc
      exact separates_of_mem_gap hg c hc

/-- However words are laid out, they are the same tokens. -/
theorem scans_relaid {ls : List Lexeme} {ws : List (List Char)} (h : Spoken ls ws)
    {text : List Char} (htext : text ∈ relaid ws) :
    ∃ ls', ls'.map (·.token) = ls.map (·.token) ∧ Scans [] n text ls' := by
  obtain ⟨_, hfront, g', hg', rfl⟩ := Language.mem_mul.1 htext
  obtain ⟨g, hg, words, hwords, rfl⟩ := Language.mem_mul.1 hfront
  obtain ⟨ls', htokens, hscans⟩ : ∃ ls', ls'.map (·.token) = ls.map (·.token) ∧
      Scans g' (n + width g) words ls' := scans_words h hwords (separates_of_mem_margin hg')
  refine ⟨ls', htokens, ?_⟩
  have hback : Scans [] n (g ++ words ++ g') ([] ++ ls' ++ []) := by
    refine Scans.append ?_ (scans_margin hg')
    rw [List.append_nil]
    exact (scans_margin hg).append hscans
  rwa [List.nil_append, List.append_nil] at hback

end

/-! ## The words of a source -/

/-- Two texts that begin at the same byte of a source and take as many bytes are the same. -/
theorem append_inj_of_width {a b a' b' : List Char} (h : a ++ b = a' ++ b')
    (hw : width a = width a') : a = a' ∧ b = b' := by
  induction a generalizing a' with
  | nil =>
    cases a' with
    | nil => exact ⟨rfl, h⟩
    | cons c a' =>
      have hpos := width_pos (List.cons_ne_nil c a')
      rw [← hw, width_nil] at hpos
      exact absurd hpos (Nat.lt_irrefl 0)
  | cons c a ih =>
    cases a' with
    | nil =>
      have hpos := width_pos (List.cons_ne_nil c a)
      rw [hw, width_nil] at hpos
      exact absurd hpos (Nat.lt_irrefl 0)
    | cons c' a' =>
      obtain ⟨rfl, htail⟩ := List.cons.inj h
      rw [width_cons, width_cons] at hw
      obtain ⟨rfl, rfl⟩ := ih htail (Nat.add_left_cancel hw)
      exact ⟨rfl, rfl⟩

theorem width_toList (s : String) : width s.toList = s.utf8ByteSize := by
  rw [width_eq_utf8ByteSize, String.ofList_toList]

/-- What a lexeme cuts out of the source is its word. -/
theorem Scans.word_of_cuts {source text after : String} {ls : List Lexeme}
    (h : Scans [] 0 source.toList ls) {l : Lexeme} (hl : l ∈ ls)
    (hcuts : l.span.Cuts source text after) : ∃ after, Word l.token text.toList after := by
  obtain ⟨before, w, rest, hsource, hw, hspan⟩ := h.exists_word hl
  obtain ⟨before', hsource', hspan'⟩ := hcuts
  rw [hspan, ← width_toList before', ← width_toList text] at hspan'
  obtain ⟨hstart, hstop⟩ := Span.mk.inj hspan'
  simp only [Nat.zero_add] at hstart hstop
  have hparts : before'.toList ++ (text.toList ++ after.toList) = before ++ (w ++ rest) := by
    rw [← List.append_assoc, ← List.append_assoc, ← hsource, hsource', String.toList_append,
      String.toList_append]
  obtain ⟨hbefore, hparts⟩ := append_inj_of_width hparts hstart.symm
  rw [hbefore] at hstop
  obtain ⟨hw', -⟩ := append_inj_of_width hparts (Nat.add_left_cancel hstop).symm
  exact ⟨_, hw' ▸ hw⟩

/-- However the words of a source are laid out, they scan as the tokens of the source. -/
theorem tokenize_relaid {source source' : String} {ls : List Lexeme} {ws : List String}
    (hls : tokenize source = .ok ls)
    (hws : List.Forall₂ (fun l w => ∃ after, l.span.Cuts source w after) ls ws)
    (hsource' : source'.toList ∈ relaid (ws.map (·.toList))) :
    ∃ ls', tokenize source' = .ok ls' ∧ ls'.map (·.token) = ls.map (·.token) := by
  have hscans := scan_eq_ok_iff.1 (tokenize_eq_ok_iff.1 hls)
  have hspoken : Spoken ls (ws.map (·.toList)) := by
    have hboth := (List.forall₂_and_left ls ws).2 ⟨fun l hl => hl, hws⟩
    refine List.forall₂_map_right_iff.2 (hboth.imp ?_)
    rintro l w ⟨hl, after, hcuts⟩
    exact hscans.word_of_cuts hl hcuts
  obtain ⟨ls', htokens, h⟩ := scans_relaid (n := 0) hspoken hsource'
  exact ⟨ls', tokenize_eq_ok_iff.2 (scan_eq_ok_iff.2 h), htokens⟩

end MonkeyLang.Token
