import MonkeyLang.Proofs.Parsing.Chains
import MonkeyLang.Proofs.Parsing.Places

/-!
# Sources one behind the other

A source that ends with a semicolon, or has no tokens, takes nothing from what follows it: in a
line of its own the next source reads as it does alone, only further on.

    compile (a ++ "\n" ++ b) = .ok ⟨p.statements ++ (q further on).statements⟩   (compile_joined)

No phrase ends with a semicolon (`Phrase.unended`), so the last one is that of a statement, and
an expression in front of it does not go on behind it (`Statements.append`).
-/

namespace MonkeyLang

namespace Grammar

variable {limit : Nat}

theorem ne_semi_of_leaf? {l : Lexeme} {e : Expr} (h : leaf? l = some e) : l.token ≠ .semi := by
  intro ht
  rw [leaf?, ht] at h
  cases h

/-- The last of the lexemes, if there is one, is no semicolon. -/
def Unended (ls : List Lexeme) : Prop := ∀ l ∈ ls.getLast?, l.token ≠ .semi

theorem unended_concat (ls : List Lexeme) {l : Lexeme} (hl : l.token ≠ .semi) :
    Unended (ls ++ [l]) := by
  intro m hm
  rw [List.getLast?_concat] at hm
  cases hm
  exact hl

theorem Unended.append {rs : List Lexeme} (h : Unended rs) (hne : rs ≠ []) (ls : List Lexeme) :
    Unended (ls ++ rs) := by
  intro m hm
  rw [List.getLast?_append_of_ne_nil ls hne] at hm
  exact h m hm

theorem Unended.append_cons {rs : List Lexeme} (h : Unended rs) (hne : rs ≠ [])
    (ls : List Lexeme) (l : Lexeme) : Unended (ls ++ l :: rs) :=
  (h.append hne [l]).append (List.cons_ne_nil l rs) ls

theorem Block.unended {d : Nat} {ls : List Lexeme} {ss : List Stmt} (h : Block limit d ls ss) :
    ls ≠ [] ∧ Unended ls := by
  cases h with
  | braces _ _ hc => exact ⟨by simp, unended_concat _ (by rw [hc]; exact Token.noConfusion)⟩

/-- By cases on the last rule of the phrase. -/
theorem Phrase.unended {layer : Layer} {d k : Nat} {ls : List Lexeme} {e : Expr} :
    Phrase limit layer d ls k e → Unended ls
  | .leaf _ hl => unended_concat [] (ne_semi_of_leaf? hl)
  | .paren _ _ _ hc => unended_concat _ (by rw [hc]; exact Token.noConfusion)
  | .array _ _ _ hc => unended_concat _ (by rw [hc]; exact Token.noConfusion)
  | .hash _ _ _ hc => unended_concat _ (by rw [hc]; exact Token.noConfusion)
  | .cond _ _ _ _ _ hy .none => by
    rw [List.append_nil]
    exact hy.unended.2.append_cons hy.unended.1 _ _
  | .cond _ _ _ _ _ _ (.block _ hb) => hb.unended.2.append_cons hb.unended.1 _ _
  | .unary _ _ he => he.unended.append_cons he.ne_nil [] _
  | .binary _ _ _ hr => hr.unended.append_cons hr.ne_nil _ _
  | .call _ _ _ _ hc => unended_concat _ (by rw [hc]; exact Token.noConfusion)
  | .index _ _ _ _ hc => unended_concat _ (by rw [hc]; exact Token.noConfusion)
  | .tighter h => h.unended

/-- A statement without a semicolon ends as its expression does. -/
theorem Statement.unended {d : Nat} {ls : List Lexeme} {s : Stmt} :
    Statement limit d false ls s → Unended ls
  | .define (l := l) (x := x) _ _ _ he .absent => by
    rw [List.append_nil]
    exact he.unended.append_cons he.ne_nil [l, x] _
  | .expr he .absent => by
    rw [List.append_nil]
    exact he.unended

/-- A statement has the semicolon that it ends with. -/
theorem Statement.eq_true_of_semi {d : Nat} {ended : Bool} {ls : List Lexeme} {s : Stmt}
    (h : Statement limit d ended ls s) (hend : ∀ l ∈ ls.getLast?, l.token = .semi) :
    ended = true := by
  cases ended with
  | true => rfl
  | false =>
    obtain ⟨l, rs, rfl, -⟩ := h.begins
    have hlast := List.getLast?_eq_getLast_of_ne_nil (List.cons_ne_nil l rs)
    exact absurd (hend _ hlast) (h.unended _ hlast)

/-- Statements that end with a semicolon can have any others behind them. -/
theorem Statements.append {d : Nat} {ls rs : List Lexeme} {ss ts : List Stmt}
    (h : Statements limit d ls ss) (hrs : Statements limit d rs ts)
    (hend : ∀ l ∈ ls.getLast?, l.token = .semi) : Statements limit d (ls ++ rs) (ss ++ ts) :=
  match h with
  | .nil => hrs
  | @Statements.cons _ _ _ vs ws _ _ hs hnext hss => by
    rw [List.append_assoc]
    by_cases hws : ws = []
    · subst hws
      rw [List.append_nil] at hend
      exact .cons hs (.inl (hs.eq_true_of_semi hend)) (hss.append hrs nofun)
    · rw [List.getLast?_append_of_ne_nil vs hws] at hend
      exact .cons hs (hnext.imp_right (mt (continues_append hws rs).1)) (hss.append hrs hend)

open MonkeyLang.Token in
/-- The next source in a line of its own. -/
theorem compile_joined {a b : String} {ls : List Lexeme} {p q : Program}
    (hls : tokenize a = .ok ls) (hend : ∀ l ∈ ls.getLast?, l.token = .semi)
    (hp : Program.parse ls = .ok p) (hq : compile b = .ok q) :
    compile (a ++ "\n" ++ b) =
      .ok ⟨p.statements ++ (q.mapSpans (.shift (a.utf8ByteSize + 1))).statements⟩ := by
  obtain ⟨ms, hms, hq⟩ := compile_eq_ok_iff.1 hq
  have hshift := (scan_eq_ok_iff.1 hms).shift (a.utf8ByteSize + 1)
  have htext : (a ++ "\n" ++ b).toList = a.toList ++ '\n' :: b.toList := by
    rw [String.toList_append, String.toList_append, List.append_assoc]
    rfl
  have hscan : Scans [] 0 (a ++ "\n" ++ b).toList
      (ls ++ moved (a.utf8ByteSize + 1 + ·) ms) := by
    rw [htext]
    refine (scan_eq_ok_iff.1 (tokenize_eq_ok_iff.1 hls)).append_newline ?_
    rwa [Nat.zero_add, width_eq_utf8ByteSize, String.ofList_toList]
  have hmoved := Statements.moved (φ := (a.utf8ByteSize + 1 + ·))
    (fun _ _ h => Nat.add_le_add_left h _) (parseWithin_eq_ok_iff.1 hq)
  refine compile_eq_ok_iff.2 ⟨_, scan_eq_ok_iff.2 hscan, parseWithin_eq_ok_iff.2 ?_⟩
  exact Statements.append (parseWithin_eq_ok_iff.1 hp) hmoved hend

end Grammar

end MonkeyLang
