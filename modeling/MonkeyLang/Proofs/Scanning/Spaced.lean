import MonkeyLang.Proofs.Scanning.MaximalMunch
import MonkeyLang.Proofs.Scanning.Words

/-!
# Tokens with a space between them

The text that stands for a token (`display`) is read as that token again, unless it stands for
another one from the outset: a negative number has the sign `-` in front, a name can be none, and no
escapes are put back into a string literal (`Plain`).  A space after it goes on with no token, and so
the texts of any tokens can be put one behind the other:

    (∀ t ∈ ts, t.Plain) → tokenize (spaced ts) = ts, each where its text stands  (tokenize_spaced)
-/

namespace MonkeyLang.Token

/-- The text of the token is one of those that the scanner takes for it. -/
def Plain : Token → Prop
  | int n => 0 ≤ n.toInt
  | ident x => IsName x
  | str s => '"' ∉ s.toList ∧ '\\' ∉ s.toList
  | _ => True

/-- The texts of the tokens with one space between each two. -/
def spaced (ts : List Token) : String := " ".intercalate (ts.map display)

/-- The tokens where their texts stand, if the first one begins at byte `n` and each other one byte
behind the one before it. -/
def placed (n : Nat) : List Token → List Lexeme
  | [] => []
  | t :: ts => ⟨t, ⟨n, n + t.display.utf8ByteSize⟩⟩ :: placed (n + t.display.utf8ByteSize + 1) ts

/-! ## Scanning -/

section

variable {t : Token} {ts : List Token} {rest : List Char}

/-- With neither quotes nor backslashes in it, a text is its own spelling. -/
theorem spelled_self {cs : List Char} (hq : '"' ∉ cs) (hb : '\\' ∉ cs) : Spelled cs cs := by
  induction cs with
  | nil => exact .nil
  | cons c cs ih =>
    rw [List.mem_cons, not_or] at hq hb
    exact .plain (Ne.symm hq.1) (Ne.symm hb.1) (ih hq.2 hb.2)

/-- One case for each kind of token. -/
theorem Plain.word (h : t.Plain) (hrest : Apart rest) : Word t t.display.toList rest := by
  cases t with
  | int n => exact word_int h hrest
  | ident x => exact word_name h hrest
  | str s =>
    have hword : Word (.str (.ofList s.toList)) ('"' :: s.toList ++ ['"']) rest :=
      .str (spelled_self h.1 h.2)
    rw [String.ofList_toList] at hword
    have htext : (str s).display.toList = '"' :: s.toList ++ ['"'] := by
      rw [display, String.toList_append, String.toList_append]
      rfl
    rwa [htext]
  | _ => exact word_display (by decide) hrest

theorem spaced_cons_cons (t u : Token) (ts : List Token) :
    spaced (t :: u :: ts) = t.display ++ " " ++ spaced (u :: ts) :=
  String.intercalate_cons_cons

/-- The space behind a token is all that keeps it from the next one. -/
theorem scans_spaced (h : ∀ t ∈ ts, t.Plain) (hrest : Apart rest) (n : Nat) :
    Scans rest n (spaced ts).toList (placed n ts) := by
  induction ts generalizing n with
  | nil => exact .nil
  | cons t ts ih =>
    obtain ⟨ht, hts⟩ := List.forall_mem_cons.1 h
    cases ts with
    | nil =>
      have hscans : Scans rest n (t.display.toList ++ []) _ := .word (ht.word hrest) .nil
      rwa [List.append_nil, width_eq_utf8ByteSize, String.ofList_toList] at hscans
    | cons u ts =>
      have hspace : Apart (' ' :: (spaced (u :: ts)).toList ++ rest) := by
        rintro c ⟨⟩
        decide
      have hscans : Scans rest n (t.display.toList ++ ' ' :: (spaced (u :: ts)).toList) _ :=
        .word (ht.word hspace) (.space rfl (ih hts _))
      rw [width_eq_utf8ByteSize, String.ofList_toList] at hscans
      rw [spaced_cons_cons, String.toList_append, String.toList_append, List.append_assoc]
      exact hscans

end

/-! ## Places -/

section

variable {ts : List Token}

@[simp] theorem map_token_placed (n : Nat) (ts : List Token) :
    (placed n ts).map (·.token) = ts := by
  induction ts generalizing n with
  | nil => rfl
  | cons t ts ih => rw [placed, List.map_cons, ih]

theorem spaced_cons (t : Token) (ts : List Token) :
    spaced (t :: ts) = t.display ++ String.join (ts.map (" " ++ ·.display)) := by
  induction ts generalizing t with
  | nil => exact String.intercalate_singleton.trans String.append_empty.symm
  | cons u ts ih =>
    rw [spaced_cons_cons, ih, List.map_cons, String.join_cons, String.append_assoc,
      String.append_assoc]

/-- The `i`-th token stands where its text does, behind those before it. -/
theorem cuts_placed (before : String) {i : Nat} {l : Lexeme}
    (h : (placed before.utf8ByteSize ts)[i]? = some l) :
    l.span.Cuts (before ++ spaced ts) l.token.display
      (String.join ((ts.drop (i + 1)).map (" " ++ ·.display))) := by
  induction ts generalizing before i with
  | nil => cases h
  | cons t ts ih =>
    cases i with
    | zero =>
      obtain rfl := Option.some.inj h
      refine ⟨before, ?_, rfl⟩
      rw [spaced_cons, String.append_assoc]
      rfl
    | succ i =>
      cases ts with
      | nil => cases h
      | cons u ts =>
        have hsize : before.utf8ByteSize + t.display.utf8ByteSize + 1 =
            (before ++ t.display ++ " ").utf8ByteSize := by
          rw [String.utf8ByteSize_append, String.utf8ByteSize_append]
          rfl
        rw [placed, List.getElem?_cons_succ, hsize] at h
        rw [spaced_cons_cons, ← String.append_assoc, ← String.append_assoc]
        exact ih _ h

end

/-! ## Top theorem -/

/-- Tokens are read from their texts with spaces between them, each from its own text: what stands
behind it there are the texts of those that come after it. -/
theorem tokenize_spaced {ts : List Token} (h : ∀ t ∈ ts, t.Plain) :
    ∃ ls, tokenize (spaced ts) = .ok ls ∧ ls.map (·.token) = ts ∧
      ∀ (i : Nat) (l : Lexeme), ls[i]? = some l →
        l.span.Cuts (spaced ts) l.token.display
          (String.join ((ts.drop (i + 1)).map (" " ++ ·.display))) := by
  refine ⟨placed 0 ts, ?_, map_token_placed 0 ts, fun i l hl => ?_⟩
  · exact tokenize_eq_ok_iff.2 (scan_eq_ok_iff.2 (scans_spaced h (by rintro c ⟨⟩) 0))
  · have hcuts := cuts_placed "" hl
    rwa [String.empty_append] at hcuts

/-- Signs that are another token, or none, where nothing stands between them; a name that begins like
a fixed word, the largest integer, and a string literal with a line feed and slashes in it. -/
theorem tokenize_spaced_of_signs :
    let ts := [slash, slash, assign, eqEq, ident "lets", int Int64.maxValue, str "é\n// x", letWord]
    let source := "/ / = == lets 9223372036854775807 \"é\n// x\" let"
    (∀ t ∈ ts, t.Plain) ∧
      ∃ ls, tokenize source = .ok ls ∧ ls.map (·.token) = ts ∧
        ∀ (i : Nat) (l : Lexeme), ls[i]? = some l →
          l.span.Cuts source l.token.display
            (String.join ((ts.drop (i + 1)).map (" " ++ ·.display))) := by
  intro ts source
  have hname : IsName "lets" := by
    have hletters : ['e', 't', 's'].all Char.isAlphanum = true := rfl
    refine ⟨mem_single_mul_kstar.2 ⟨'l', ['e', 't', 's'], rfl, .inl rfl, fun c hc => .inl ?_⟩, rfl⟩
    exact List.all_eq_true.1 hletters c hc
  have hplain : ∀ t ∈ ts, t.Plain := by
    intro t ht
    simp only [ts, List.mem_cons, List.not_mem_nil, or_false] at ht
    rcases ht with rfl | rfl | rfl | rfl | rfl | rfl | rfl | rfl
    · trivial
    · trivial
    · trivial
    · trivial
    · exact hname
    · exact (by decide : 0 ≤ Int64.maxValue.toInt)
    · exact (by decide : '"' ∉ "é\n// x".toList ∧ '\\' ∉ "é\n// x".toList)
    · trivial
  have hsource : spaced ts = source := by decide +kernel
  rw [← hsource]
  exact ⟨hplain, tokenize_spaced hplain⟩

/-- The sign of a negative number is a token of its own. -/
example : tokenize (spaced [int (-1)]) = .ok [⟨minus, ⟨0, 1⟩⟩, ⟨int 1, ⟨1, 2⟩⟩] := by
  decide +kernel

end MonkeyLang.Token
