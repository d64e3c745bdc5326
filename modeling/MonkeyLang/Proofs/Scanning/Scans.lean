import MonkeyLang.Proofs.Scanning.Pieces

/-!
# What a text scans as

`Scans rest n cs ls` says that the characters `cs`, which are at byte `n` of a source and before
the text `rest`, are the lexemes `ls` with gaps around them.  Such texts can be put together and
taken apart at lexemes (`Scans.append`, `Scans.split_before`, `Scans.split_after`), moved to
another place (`Scans.shift`), and put before another text that begins alike or in a new line
(`Scans.of_head`).  The scanner is this relation:

    scan source = .ok ls ↔ Scans [] 0 source.toList ls                       (scan_eq_ok_iff)
-/

namespace MonkeyLang

/-- The same token over another span. -/
def Lexeme.mapSpan (f : Span → Span) (l : Lexeme) : Lexeme := ⟨l.token, f l.span⟩

namespace Token

/-! ## Widths -/

section

variable {c : Char} {cs ds : List Char}

@[simp] theorem width_nil : width [] = 0 := rfl

theorem foldl_width (n : Nat) (cs : List Char) :
    cs.foldl (fun n c => n + c.utf8Size) n = n + width cs := by
  induction cs generalizing n with
  | nil => rfl
  | cons c cs ih =>
    rw [width, List.foldl_cons, List.foldl_cons, ih, ih, Nat.zero_add, Nat.add_assoc]

@[simp] theorem width_cons (c : Char) (cs : List Char) :
    width (c :: cs) = c.utf8Size + width cs := by
  rw [width, List.foldl_cons, foldl_width, Nat.zero_add]

@[simp] theorem width_append (cs ds : List Char) : width (cs ++ ds) = width cs + width ds := by
  induction cs with
  | nil => simp
  | cons c cs ih => simp [ih, Nat.add_assoc]

theorem width_pos (h : cs ≠ []) : 0 < width cs := by
  obtain ⟨c, cs, rfl⟩ := List.exists_cons_of_ne_nil h
  have := c.utf8Size_pos
  rw [width_cons]
  omega

theorem width_eq_utf8ByteSize (cs : List Char) : width cs = (String.ofList cs).utf8ByteSize := by
  induction cs with
  | nil => rfl
  | cons c cs ih =>
    rw [width_cons, ih, ← List.singleton_append, String.ofList_append, String.utf8ByteSize_append,
      ← String.singleton_eq_ofList, String.utf8ByteSize_singleton]

end

/-! ## The relation -/

/-- The text, which starts at byte `n` and has `rest` behind it, is these lexemes with spaces and
comments between them. -/
inductive Scans (rest : List Char) : Nat → List Char → List Lexeme → Prop
  | nil {n : Nat} : Scans rest n [] []
  | space {n : Nat} {c : Char} {cs : List Char} {ls : List Lexeme} (hc : isSpace c)
      (h : Scans rest (n + width [c]) cs ls) : Scans rest n (c :: cs) ls
  | comment {n : Nat} {b cs : List Char} {ls : List Lexeme} (hb : '\n' ∉ b)
      (hnext : ∀ c ∈ (cs ++ rest).head?, c = '\n')
      (h : Scans rest (n + width ('/' :: '/' :: b)) cs ls) :
      Scans rest n ('/' :: '/' :: b ++ cs) ls
  | word {n : Nat} {t : Token} {w cs : List Char} {ls : List Lexeme} (hw : Word t w (cs ++ rest))
      (h : Scans rest (n + width w) cs ls) :
      Scans rest n (w ++ cs) (⟨t, ⟨n, n + width w⟩⟩ :: ls)

namespace Scans

variable {rest rest' cs ds : List Char} {n : Nat} {ls ms : List Lexeme}

theorem spaces {w : List Char} (hw : ∀ c ∈ w, isSpace c) (h : Scans rest (n + width w) cs ls) :
    Scans rest n (w ++ cs) ls := by
  induction w generalizing n with
  | nil => exact h
  | cons c w ih =>
    obtain ⟨hc, hw⟩ := List.forall_mem_cons.1 hw
    refine .space hc (ih hw ?_)
    simpa [Nat.add_assoc] using h

/-- Texts one behind the other, the first of them in sight of the second. -/
theorem append (hcs : Scans (ds ++ rest) n cs ls) (hds : Scans rest (n + width cs) ds ms) :
    Scans rest n (cs ++ ds) (ls ++ ms) := by
  induction hcs with
  | nil => exact hds
  | space hc _ ih =>
    refine .space hc (ih ?_)
    simpa [Nat.add_assoc] using hds
  | @comment n b cs ls hb hnext _ ih =>
    rw [List.append_assoc]
    refine .comment hb (by rwa [List.append_assoc]) (ih ?_)
    simpa [Nat.add_assoc] using hds
  | @word n t w cs ls hw _ ih =>
    rw [List.append_assoc]
    refine .word (by rwa [List.append_assoc]) (ih ?_)
    simpa [Nat.add_assoc] using hds

/-- What is behind a text matters by its first character, and not if that is a line end. -/
theorem of_head (h : Scans rest n cs ls)
    (hhead : ∀ c ∈ rest'.head?, c ∈ rest.head? ∨ c = '\n') : Scans rest' n cs ls := by
  have happend : ∀ cs : List Char, ∀ c ∈ (cs ++ rest').head?,
      c ∈ (cs ++ rest).head? ∨ c = '\n' := by
    intro cs c hc
    cases cs with
    | nil => exact hhead c hc
    | cons d cs => exact .inl hc
  induction h with
  | nil => exact .nil
  | space hc _ ih => exact .space hc ih
  | comment hb hnext _ ih =>
    exact .comment hb (fun c hc => (happend _ c hc).elim (hnext c) id) ih
  | word hw _ ih =>
    refine .word (hw.of_head fun c hc => (happend _ c hc).imp_right ?_) ih
    rintro rfl
    rfl

/-- A text that ends before a line end goes on in the next line. -/
theorem append_newline (hcs : Scans [] n cs ls) (hds : Scans rest (n + width cs + 1) ds ms) :
    Scans rest n (cs ++ '\n' :: ds) (ls ++ ms) := by
  refine append (hcs.of_head ?_) (.space rfl hds)
  rintro c ⟨⟩
  exact .inr rfl

/-- Further on in a source, the same text is the same lexemes further on. -/
theorem shift (h : Scans rest n cs ls) (k : Nat) :
    Scans rest (k + n) cs (ls.map (·.mapSpan (.shift k))) := by
  induction h with
  | nil => exact .nil
  | space hc _ ih => exact .space hc (by rwa [Nat.add_assoc])
  | comment hb hnext _ ih => exact .comment hb hnext (by rwa [Nat.add_assoc])
  | @word n t w cs ls hw _ ih =>
    have hl : (⟨t, ⟨n, n + width w⟩⟩ : Lexeme).mapSpan (.shift k) =
        ⟨t, ⟨k + n, k + n + width w⟩⟩ := by
      simp [Lexeme.mapSpan, Span.shift, Nat.add_assoc]
    rw [List.map_cons, hl]
    exact .word hw (by rwa [Nat.add_assoc])

/-- A text that starts later is the lexemes that it would be at the start, further on. -/
theorem unshift {k m : Nat} (h : Scans rest m cs ls) (hm : m = k + n) :
    ∃ ls', ls = ls'.map (·.mapSpan (.shift k)) ∧ Scans rest n cs ls' := by
  induction h generalizing n with
  | nil => exact ⟨[], rfl, .nil⟩
  | space hc _ ih =>
    obtain ⟨ls', rfl, h⟩ := ih (by rw [hm, Nat.add_assoc])
    exact ⟨ls', rfl, .space hc h⟩
  | comment hb hnext _ ih =>
    obtain ⟨ls', rfl, h⟩ := ih (by rw [hm, Nat.add_assoc])
    exact ⟨ls', rfl, .comment hb hnext h⟩
  | @word m t w cs ls hw _ ih =>
    obtain ⟨ls', rfl, h⟩ := ih (n := n + width w) (by rw [hm, Nat.add_assoc])
    refine ⟨⟨t, ⟨n, n + width w⟩⟩ :: ls', ?_, .word hw h⟩
    simp [Lexeme.mapSpan, Span.shift, hm, Nat.add_assoc]

/-! ## Taking texts apart -/

/-- The text of some lexemes, and that of others, which starts with the first of them. -/
theorem split_before {as bs : List Lexeme} (h : Scans rest n cs (as ++ bs)) :
    ∃ a b, cs = a ++ b ∧ Scans (b ++ rest) n a as ∧ Scans rest (n + width a) b bs ∧
      ∀ l ∈ bs.head?, l.span.start = n + width a := by
  generalize hls : as ++ bs = ls at h
  induction h generalizing as with
  | nil =>
    obtain ⟨rfl, rfl⟩ := List.append_eq_nil_iff.1 hls
    exact ⟨[], [], rfl, .nil, .nil, nofun⟩
  | space hc _ ih =>
    obtain ⟨a, b, rfl, ha, hb, hstart⟩ := ih hls
    rw [Nat.add_assoc, ← width_append] at hb hstart
    exact ⟨_ :: a, b, rfl, .space hc ha, hb, hstart⟩
  | comment hq hnext _ ih =>
    obtain ⟨a, b, rfl, ha, hb, hstart⟩ := ih hls
    rw [Nat.add_assoc, ← width_append] at hb hstart
    rw [List.append_assoc] at hnext
    exact ⟨_ ++ a, b, (List.append_assoc ..).symm, .comment hq hnext ha, hb, hstart⟩
  | word hw h ih =>
    cases as with
    | nil =>
      obtain rfl : bs = _ := hls
      refine ⟨[], _, rfl, .nil, .word hw h, ?_⟩
      rintro l ⟨⟩
      rfl
    | cons l as =>
      obtain ⟨rfl, rfl⟩ := List.cons.inj hls
      obtain ⟨a, b, rfl, ha, hb, hstart⟩ := ih rfl
      rw [Nat.add_assoc, ← width_append] at hb hstart
      rw [List.append_assoc] at hw
      exact ⟨_ ++ a, b, (List.append_assoc ..).symm, .word hw ha, hb, hstart⟩

/-- The text of some lexemes, which ends with the last of them, and that of others. -/
theorem split_after {as bs : List Lexeme} (h : Scans rest n cs (as ++ bs)) (hne : as ≠ []) :
    ∃ a b, cs = a ++ b ∧ Scans (b ++ rest) n a as ∧ Scans rest (n + width a) b bs ∧
      ∀ l ∈ as.getLast?, l.span.stop = n + width a := by
  generalize hls : as ++ bs = ls at h
  induction h generalizing as with
  | nil => exact absurd (List.append_eq_nil_iff.1 hls).1 hne
  | space hc _ ih =>
    obtain ⟨a, b, rfl, ha, hb, hstop⟩ := ih hne hls
    rw [Nat.add_assoc, ← width_append] at hb hstop
    exact ⟨_ :: a, b, rfl, .space hc ha, hb, hstop⟩
  | comment hq hnext _ ih =>
    obtain ⟨a, b, rfl, ha, hb, hstop⟩ := ih hne hls
    rw [Nat.add_assoc, ← width_append] at hb hstop
    rw [List.append_assoc] at hnext
    exact ⟨_ ++ a, b, (List.append_assoc ..).symm, .comment hq hnext ha, hb, hstop⟩
  | @word n t w cs ls hw h ih =>
    obtain ⟨l, as, rfl⟩ := List.exists_cons_of_ne_nil hne
    obtain ⟨rfl, rfl⟩ := List.cons.inj hls
    cases as with
    | nil =>
      have hnil : Scans (cs ++ rest) n (w ++ []) _ := .word hw .nil
      rw [List.append_nil] at hnil
      refine ⟨w, cs, rfl, hnil, h, ?_⟩
      rintro l ⟨⟩
      rfl
    | cons l as =>
      obtain ⟨a, b, rfl, ha, hb, hstop⟩ := ih (List.cons_ne_nil _ _) rfl
      rw [Nat.add_assoc, ← width_append] at hb hstop
      rw [List.append_assoc] at hw
      exact ⟨_ ++ a, b, (List.append_assoc ..).symm, .word hw ha, hb, hstop⟩

/-- The text from the first of some lexemes to the last. -/
theorem cut {as bs : List Lexeme} (h : Scans rest n cs (as ++ ms ++ bs)) (hne : ms ≠ []) :
    ∃ a m b, cs = a ++ m ++ b ∧ Scans (b ++ rest) (n + width a) m ms ∧
      (∀ l ∈ ms.head?, l.span.start = n + width a) ∧
      ∀ l ∈ ms.getLast?, l.span.stop = n + width a + width m := by
  rw [List.append_assoc] at h
  obtain ⟨a, mb, rfl, -, hmb, hstart⟩ := h.split_before
  obtain ⟨m, b, rfl, hm, -, hstop⟩ := hmb.split_after hne
  refine ⟨a, m, b, (List.append_assoc ..).symm, hm, fun l hl => ?_, hstop⟩
  exact hstart l (by rw [List.head?_append_of_ne_nil ms hne]; exact hl)

/-- The lexemes lie in the text one behind the other, and none is empty. -/
theorem spans (h : Scans rest n cs ls) :
    (∀ l ∈ ls, n ≤ l.span.start ∧ l.span.start < l.span.stop ∧ l.span.stop ≤ n + width cs) ∧
      ls.Pairwise fun l m => l.span.stop ≤ m.span.start := by
  induction h with
  | nil => exact ⟨nofun, .nil⟩
  | space _ _ ih =>
    refine ⟨fun l hl => ?_, ih.2⟩
    have := ih.1 l hl
    simp only [width_cons, width_nil] at this ⊢
    omega
  | comment _ _ _ ih =>
    refine ⟨fun l hl => ?_, ih.2⟩
    have := ih.1 l hl
    rw [width_append]
    omega
  | word hw _ ih =>
    have hpos := width_pos hw.ne_nil
    rw [width_append]
    refine ⟨List.forall_mem_cons.2 ⟨⟨by simp, by simpa, by simp⟩, fun l hl => ?_⟩,
      List.pairwise_cons.2 ⟨fun l hl => (ih.1 l hl).1, ih.2⟩⟩
    have := ih.1 l hl
    omega

end Scans

/-! ## The scanner -/

section

variable {c : Char} {cs rest : List Char} {n : Nat} {done ls : List Lexeme}

/-- Spaces can be taken one by one. -/
theorem scanFrom_of_isSpace (hc : isSpace c) :
    scanFrom n done (c :: cs) = scanFrom (n + width [c]) done cs := by
  rw [scanFrom, firstPiece_of_isSpace hc]
  cases cs with
  | nil => rfl
  | cons d cs =>
    by_cases hd : isSpace d
    · rw [scanFrom, firstPiece_of_isSpace hd, List.takeWhile_cons_of_pos hd,
        List.dropWhile_cons_of_pos hd]
      simp [Nat.add_assoc]
    · rw [List.takeWhile_cons_of_neg hd, List.dropWhile_cons_of_neg hd]

/-- The scanner takes what scans, and goes on with the rest. -/
theorem Scans.scanFrom_eq (h : Scans rest n cs ls) (done : List Lexeme) :
    scanFrom n done (cs ++ rest) = scanFrom (n + width cs) (ls.reverse ++ done) rest := by
  induction h generalizing done with
  | nil => rfl
  | space hc _ ih =>
    rw [List.cons_append, scanFrom_of_isSpace hc, ih, Nat.add_assoc, ← width_append]
    rfl
  | @comment n b cs ls hb hnext _ ih =>
    rw [List.append_assoc, List.cons_append, List.cons_append, ← List.cons_append, scanFrom,
      firstPiece_of_comment hb hnext]
    simp only
    rw [ih, Nat.add_assoc, ← width_append]
  | @word n t w cs ls hw _ ih =>
    obtain ⟨c, w, rfl, hpiece⟩ := hw.firstPiece_eq
    rw [List.append_assoc, List.cons_append, scanFrom, hpiece]
    simp only
    rw [ih]
    simp [Nat.add_assoc]

end

/-- Every text scans up to its end, or up to what is no piece. -/
theorem exists_scans (cs : List Char) (n : Nat) :
    ∃ text ls rest, cs = text ++ rest ∧ Scans rest n text ls ∧
      (rest = [] ∨ ∃ c r cause, rest = c :: r ∧ (firstPiece c r).kind = .bad cause) := by
  match cs with
  | [] => exact ⟨[], [], [], rfl, .nil, .inl rfl⟩
  | c :: r =>
    have happend := firstPiece_append c r
    have hlength := length_firstPiece_rest c r
    have hexplains := explains_firstPiece c r
    generalize hpiece : firstPiece c r = piece at happend hlength hexplains
    cases hexplains with
    | @blank w after hw =>
      obtain ⟨text, ls, rest, rfl, h, hend⟩ := exists_scans after (n + width w)
      exact ⟨w ++ text, ls, rest, by rw [← happend, List.append_assoc], .spaces hw h, hend⟩
    | @comment b after hb hnext =>
      obtain ⟨text, ls, rest, rfl, h, hend⟩ := exists_scans after (n + width ('/' :: '/' :: b))
      exact ⟨_, ls, rest, by rw [← happend, List.append_assoc], .comment hb hnext h, hend⟩
    | @word t w after hw =>
      obtain ⟨text, ls, rest, rfl, h, hend⟩ := exists_scans after (n + width w)
      exact ⟨w ++ text, _, rest, by rw [← happend, List.append_assoc], .word hw h, hend⟩
    | outOfRange =>
      exact ⟨[], [], c :: r, rfl, .nil, .inr ⟨c, r, _, rfl, congrArg Piece.kind hpiece⟩⟩
    | unexpected =>
      exact ⟨[], [], c :: r, rfl, .nil, .inr ⟨c, r, _, rfl, congrArg Piece.kind hpiece⟩⟩
termination_by cs.length
decreasing_by all_goals exact hlength

section

variable {source : String} {ls : List Lexeme} {e : ScanError}

theorem Scans.scan_eq {cs : List Char} (h : Scans [] 0 cs ls) : scan (.ofList cs) = .ok ls := by
  have hscan := h.scanFrom_eq []
  rw [List.append_nil, List.append_nil, scanFrom, List.reverse_reverse] at hscan
  rw [scan, String.toList_ofList, hscan]

/-- The scan stops where there is no piece, after what was scanned before it. -/
theorem Scans.scan_eq_error {text r : List Char} {c : Char} {cause : ScanCause}
    (h : Scans (c :: r) 0 text ls) (hbad : (firstPiece c r).kind = .bad cause) :
    scan (.ofList (text ++ c :: r)) =
      .error ⟨cause, width text, width text + width (firstPiece c r).slice⟩ := by
  rw [scan, String.toList_ofList, h.scanFrom_eq, Nat.zero_add, scanFrom]
  simp only
  rw [hbad]

/-- A source scans if it can be cut into lexemes up to its end. -/
theorem scan_eq_ok_iff : scan source = .ok ls ↔ Scans [] 0 source.toList ls := by
  constructor
  · intro hscan
    obtain ⟨text, ms, rest, htext, h, rfl | ⟨c, r, cause, rfl, hbad⟩⟩ :=
      exists_scans source.toList 0
    · have hms := h.scan_eq
      rw [List.append_nil] at htext
      rw [← htext, String.ofList_toList, hscan] at hms
      cases hms
      rwa [htext]
    · have herror := h.scan_eq_error hbad
      rw [← htext, String.ofList_toList, hscan] at herror
      cases herror
  · intro h
    rw [← h.scan_eq, String.ofList_toList]

/-- A source does not scan if it can be cut up to a place where there is no piece. -/
theorem scan_eq_error_iff :
    scan source = .error e ↔ ∃ text ms c r cause, source.toList = text ++ c :: r ∧
      Scans (c :: r) 0 text ms ∧ (firstPiece c r).kind = .bad cause ∧
      e = ⟨cause, width text, width text + width (firstPiece c r).slice⟩ := by
  constructor
  · intro hscan
    obtain ⟨text, ms, rest, htext, h, rfl | ⟨c, r, cause, rfl, hbad⟩⟩ :=
      exists_scans source.toList 0
    · have hms := h.scan_eq
      rw [List.append_nil] at htext
      rw [← htext, String.ofList_toList, hscan] at hms
      cases hms
    · have herror := h.scan_eq_error hbad
      rw [← htext, String.ofList_toList, hscan] at herror
      cases herror
      exact ⟨text, ms, c, r, cause, htext, h, hbad, rfl⟩
  · rintro ⟨text, ms, c, r, cause, htext, h, hbad, rfl⟩
    rw [← h.scan_eq_error hbad, ← htext, String.ofList_toList]

end

end Token

end MonkeyLang
