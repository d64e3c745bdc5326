import MonkeyLang.Proofs.Parsing.Layout
import MonkeyLang.Proofs.Running.Sequence
import MonkeyLang.Proofs.Scanning.Layout

/-!
# Layout does not matter

A source whose words are laid out in another way has the same tokens (`Token.tokenize_relaid`).
They parse as the same tree up to spans, or fail with the same message at the same token
(`Program.parsesAlike_parse`), and spans are not looked at when the tree is evaluated.  So the
source does the same to every machine (`Machine.runSource_relaid`).
-/

namespace MonkeyLang

open Computability
open Token.Pattern (relaid)

/-- The span of the token of that number; where there is none, the end of the source. -/
def spanAt (source : String) (ls : List Lexeme) (i : Nat) : Span :=
  (ls[i]?.map (·.span)).getD ⟨source.utf8ByteSize, source.utf8ByteSize⟩

/-- The place of a parse error is that of the token which the parser cannot go past. -/
theorem ParseError.span_drop (cause : ParseCause) (source : String) (ls : List Lexeme) (i : Nat) :
    (ParseError.mk cause (ls.drop i)).span source.utf8ByteSize = spanAt source ls i := by
  unfold spanAt span
  rw [← List.head?_drop]
  cases ls.drop i <;> rfl

/-- Spans make no difference to what a program does. -/
theorem Program.eval_eq_of_bare {κ : Type} [Console κ] {p q : Program} (h : p.bare = q.bare) :
    (p.eval : Run κ Value) = q.eval := by
  have hbare (p : Program) : (p.bare.eval : Run κ Value) = p.eval :=
    Stmt.evalAll_mapSpansAll _ globalScope .null p.statements
  rw [← hbare p, h, hbare q]

/-! ## Compiling -/

/-- Both sources compile, to one tree up to spans, or neither does: their parses fail with one
message at the token of one number, or both at the end. -/
inductive CompilesAlike (source source' : String) (ls ls' : List Lexeme) :
    Except CompileError Program → Except CompileError Program → Prop
  | ok {p p' : Program} (h : p.bare = p'.bare) :
      CompilesAlike source source' ls ls' (.ok p) (.ok p')
  | error {message : String} {i : Nat} :
      CompilesAlike source source' ls ls' (.error (.parser message (spanAt source ls i)))
        (.error (.parser message (spanAt source' ls' i)))

/-- A text that has tokens compiles as far as its tokens parse. -/
theorem compile_of_tokenize {source : String} {ls : List Lexeme} (h : tokenize source = .ok ls) :
    compile source =
      (Program.parse ls).mapError (.ofParseError source.utf8ByteSize) := by
  rw [compile, h]
  rfl

/-- The same tokens compile alike, wherever they stand. -/
theorem compilesAlike_of_tokens {source source' : String} {ls ls' : List Lexeme}
    (h : tokenize source = .ok ls) (h' : tokenize source' = .ok ls')
    (htokens : ls'.map (·.token) = ls.map (·.token)) :
    CompilesAlike source source' ls ls' (compile source) (compile source') := by
  rw [compile_of_tokenize h, compile_of_tokenize h']
  have hparse := Program.parsesAlike_parse htokens.symm
  generalize Program.parse ls = r at hparse
  generalize Program.parse ls' = r' at hparse
  cases hparse with
  | ok h => exact .ok h
  | @error cause i =>
    simp only [Except.mapError, CompileError.ofParseError, ParseError.span_drop]
    exact .error

/-! ## Running -/

namespace Machine

variable {κ : Type} [Console κ]

/-- Texts that compile alike run alike, but for the places in their messages. -/
theorem runSource_of_compilesAlike {source source' : String} {ls ls' : List Lexeme}
    (h : CompilesAlike source source' ls ls' (compile source) (compile source')) (m : Machine κ) :
    (m.runSource source').1.mapError CompileError.message =
        (m.runSource source).1.mapError CompileError.message ∧
      (m.runSource source').2 = (m.runSource source).2 := by
  unfold runSource
  generalize compile source = r at h
  generalize compile source' = r' at h
  cases h with
  | ok h =>
    simp only [Program.eval_eq_of_bare h]
    exact ⟨trivial, trivial⟩
  | error => exact ⟨rfl, rfl⟩

/-- A source and its words laid out anew have the same tokens, compile alike and run alike on every
machine: to the same result or the same error, with the same machine afterwards. -/
theorem runSource_relaid {source source' : String} {ls : List Lexeme} {ws : List String}
    (hls : tokenize source = .ok ls)
    (hws : List.Forall₂ (fun l w => ∃ after, l.span.Cuts source w after) ls ws)
    (hsource' : source'.toList ∈ relaid (ws.map (·.toList))) :
    ∃ ls', tokenize source' = .ok ls' ∧ ls'.map (·.token) = ls.map (·.token) ∧
      CompilesAlike source source' ls ls' (compile source) (compile source') ∧
      ∀ (κ : Type) [Console κ] (m : Machine κ),
        (m.runSource source').1.mapError CompileError.message =
            (m.runSource source).1.mapError CompileError.message ∧
          (m.runSource source').2 = (m.runSource source).2 := by
  obtain ⟨ls', hls', htokens⟩ := Token.tokenize_relaid hls hws hsource'
  have halike := compilesAlike_of_tokens hls hls' htokens
  exact ⟨ls', hls', htokens, halike, fun κ _ m => runSource_of_compilesAlike halike m⟩

/-- A slash stays one before a comment, and what the comment says is none of the words. -/
theorem runSource_relaid_of_slash :
    let source := "1/2"
    let source' := " 1 / //0\n2"
    let ls : List Lexeme := [⟨.int 1, ⟨0, 1⟩⟩, ⟨.slash, ⟨1, 2⟩⟩, ⟨.int 2, ⟨2, 3⟩⟩]
    tokenize source = .ok ls ∧
      ∃ ls', tokenize source' = .ok ls' ∧ ls'.map (·.token) = ls.map (·.token) ∧
        CompilesAlike source source' ls ls' (compile source) (compile source') ∧
        ∀ (κ : Type) [Console κ] (m : Machine κ),
          (m.runSource source').1.mapError CompileError.message =
              (m.runSource source).1.mapError CompileError.message ∧
            (m.runSource source').2 = (m.runSource source).2 := by
  intro source source' ls
  have hls : tokenize source = .ok ls := tokenize_eq_ok_iff.2 (by decide +kernel)
  have hcuts : List.Forall₂ (fun l w => ∃ after, l.span.Cuts source w after) ls ["1", "/", "2"] :=
    .cons ⟨"/2", "", rfl, rfl⟩ (.cons ⟨"2", "1", rfl, rfl⟩ (.cons ⟨"", "1/", rfl, rfl⟩ .nil))
  have hword (w : List Char) : w ∈ ({w} : Language Char) := rfl
  have hblank : [' '] ∈ Token.Pattern.blank.language :=
    Token.mem_run.2 ⟨List.cons_ne_nil _ _, List.forall_mem_singleton.2 List.mem_cons_self⟩
  have hspace : [' '] ∈ Token.Pattern.gap :=
    Language.append_mem_mul hblank (Language.nil_mem_kstar _)
  have hcomment : "//0\n".toList ∈ Token.Pattern.comment.language * {['\n']} := by
    have hbody : ['0'] ∈ (Token.single (· ≠ '\n'))∗ :=
      Token.mem_kstar_single.2 (List.forall_mem_singleton.2 (by decide))
    exact Language.append_mem_mul (Language.append_mem_mul (hword ['/', '/']) hbody) (hword ['\n'])
  have hgap : " //0\n".toList ∈ Token.Pattern.gap := by
    refine Language.append_mem_mul hblank (Language.mem_kstar.2 ⟨["//0\n".toList], rfl, ?_⟩)
    exact List.forall_mem_singleton.2 (.inr hcomment)
  have hfront : [' '] ∈ Token.Pattern.margin := .inr hspace
  have hback : [] ∈ Token.Pattern.margin := .inl rfl
  have hrelaid : source'.toList ∈ relaid [['1'], ['/'], ['2']] := by
    have hlast : " //0\n".toList ++ ['2'] ∈ Token.Pattern.gap * ({['2']} * 1) :=
      Language.append_mem_mul hgap (Language.append_mem_mul (hword ['2']) Language.nil_mem_one)
    have hslash : ' ' :: '/' :: " //0\n2".toList ∈
        Token.Pattern.gap * ({['/']} * (Token.Pattern.gap * ({['2']} * 1))) :=
      Language.append_mem_mul hspace (Language.append_mem_mul (hword ['/']) hlast)
    have hwords := Language.append_mem_mul (hword ['1']) hslash
    have htext : source'.toList =
        [' '] ++ (['1'] ++ ' ' :: '/' :: " //0\n2".toList) ++ [] := by decide
    rw [htext]
    exact Language.append_mem_mul (Language.append_mem_mul hfront hwords) hback
  exact ⟨hls, runSource_relaid hls hcuts hrelaid⟩

end Machine

end MonkeyLang
