import MonkeyLang.CompileError
import MonkeyLang.Proofs.Scanning.Scans

/-!
# Lines

A text that scans is done with at a line end: no token or comment of it goes on in the next line,
and nothing of it is remembered there.  So the next line scans as it does alone, only further on,
and so does what is wrong with it:

    tokenize a = .ok ls →
      tokenize (a ++ "\n" ++ b) = ls and then tokenize b, behind a and one byte
                                                              (tokenize_append_newline)

A text that does not scan by itself may well do so with a line behind it, as a string literal can
have line feeds in it.
-/

namespace MonkeyLang

/-- The same cause further on in a text. -/
def ScanError.shift (n : Nat) (e : ScanError) : ScanError := ⟨e.cause, e.span.shift n⟩

/-- The same message, about a place further on in a text. -/
def CompileError.shift (n : Nat) : CompileError → CompileError
  | lexer m a => lexer m (a.shift n)
  | parser m a => parser m (a.shift n)
  | io m => io m

namespace Token

theorem toList_append_newline (a b : String) :
    (a ++ "\n" ++ b).toList = a.toList ++ '\n' :: b.toList := by
  rw [String.toList_append, String.toList_append, List.append_assoc]
  rfl

section

variable {a b : String} {ls ms : List Lexeme}

/-- Up to any place in the next line, the text scans as both lines do. -/
theorem Scans.append_line {text rest : List Char} (ha : Scans [] 0 a.toList ls)
    (hb : Scans rest 0 text ms) :
    Scans rest 0 (a.toList ++ '\n' :: text)
      (ls ++ ms.map (·.mapSpan (.shift (a.utf8ByteSize + 1)))) := by
  refine ha.append_newline ?_
  have hshift := hb.shift (a.utf8ByteSize + 1)
  rwa [Nat.zero_add, width_eq_utf8ByteSize, String.ofList_toList]

/-- Both texts scan: the tokens of the second one come behind those of the first, further on. -/
theorem scan_append_newline_of_ok (ha : scan a = .ok ls) (hb : scan b = .ok ms) :
    scan (a ++ "\n" ++ b) = .ok (ls ++ ms.map (·.mapSpan (.shift (a.utf8ByteSize + 1)))) := by
  rw [scan_eq_ok_iff, toList_append_newline]
  exact (scan_eq_ok_iff.1 ha).append_line (scan_eq_ok_iff.1 hb)

/-- The second text does not scan: its error stands further on. -/
theorem scan_append_newline_of_error {e : ScanError} (ha : scan a = .ok ls)
    (hb : scan b = .error e) :
    scan (a ++ "\n" ++ b) = .error (e.shift (a.utf8ByteSize + 1)) := by
  obtain ⟨text, ms, c, r, cause, htext, hscans, hbad, rfl⟩ := scan_eq_error_iff.1 hb
  refine scan_eq_error_iff.2 ⟨a.toList ++ '\n' :: text, _, c, r, cause, ?_,
    (scan_eq_ok_iff.1 ha).append_line hscans, hbad, ?_⟩
  · rw [toList_append_newline, htext, List.append_assoc, List.cons_append]
  · -- the text up to the bad piece is longer by the first line and its end
    have hwidth : width (a.toList ++ '\n' :: text) = a.utf8ByteSize + 1 + width text := by
      rw [width_append, width_cons, width_eq_utf8ByteSize, String.ofList_toList, Nat.add_assoc]
      rfl
    rw [ScanError.shift, Span.shift, hwidth]
    simp only [Nat.add_assoc]

end

/-! ## Top theorem -/

/-- Behind a text that scans and a line end, another text comes to the same tokens as alone, or to
the same error, in each case behind what the first text takes up. -/
theorem tokenize_append_newline {a : String} {ls : List Lexeme} (ha : tokenize a = .ok ls)
    (b : String) :
    tokenize (a ++ "\n" ++ b) =
      ((tokenize b).map fun ms => ls ++ ms.map (·.mapSpan (.shift (a.utf8ByteSize + 1)))).mapError
        (.shift (a.utf8ByteSize + 1)) := by
  have ha := tokenize_eq_ok_iff.1 ha
  unfold tokenize
  cases hb : scan b with
  | ok ms =>
    rw [scan_append_newline_of_ok ha hb]
    rfl
  | error e =>
    rw [scan_append_newline_of_error ha hb]
    rfl

/-- A comment with a quote in it ends with its line; the number in the next line is too large. -/
theorem tokenize_append_newline_of_comment :
    tokenize "x // é\"" = .ok [⟨.ident "x", ⟨0, 1⟩⟩] ∧
      tokenize ("x // é\"" ++ "\n" ++ "/ 9223372036854775808") =
        .error (.lexer "integer literal out of range: 9223372036854775808" ⟨11, 30⟩) := by
  have ha : tokenize "x // é\"" = .ok [⟨.ident "x", ⟨0, 1⟩⟩] := by decide +kernel
  have hb : tokenize "/ 9223372036854775808" =
      .error (.lexer "integer literal out of range: 9223372036854775808" ⟨2, 21⟩) := by
    decide +kernel
  refine ⟨ha, ?_⟩
  rw [tokenize_append_newline ha, hb]
  rfl

end Token

end MonkeyLang
