import MonkeyLang.CompileError
import MonkeyLang.Proofs.Scanning.Scans

/-!
# Maximal munch

A source that scans is its lexemes with gaps around them.  Every lexeme is the longest piece at its
start that any pattern fits, and its token is read from that piece alone; the gaps are blanks and
comments (`IsCutInto`).  A source that does not scan does up to some byte, where no piece starts
or the longest one is a number too large.

    match tokenize source with | .ok ls => IsCutInto source ls | .error e => ..   (tokenize_cuts)
-/

namespace MonkeyLang

/-- The span is that of `text` where it stands in the source before `after`. -/
def Span.Cuts (a : Span) (source text after : String) : Prop :=
  ∃ before, source = before ++ text ++ after ∧
    a = ⟨before.utf8ByteSize, before.utf8ByteSize + text.utf8ByteSize⟩

namespace Token

/-- The spans before, between and behind lexemes, from `start` up to `stop`. -/
def gaps (start stop : Nat) : List Lexeme → List Span
  | [] => [⟨start, stop⟩]
  | l :: ls => ⟨start, l.span.start⟩ :: gaps l.span.stop stop ls

/-- The lexemes and the gaps around them are the source, and none is another piece than it could
be. -/
structure IsCutInto (source : String) (ls : List Lexeme) : Prop where
  pieces : ∀ l ∈ ls, ∃ text after p, l.span.Cuts source text after ∧
    Munch (text.toList ++ after.toList) text.toList p ∧ Reads p text.toList l.token
  names : ∀ l ∈ ls, ∀ x, l.token = .ident x → ∀ t ∈ fixedWords, t.display ≠ x
  nonempty : ∀ l ∈ ls, l.span.start < l.span.stop
  inside : ∀ l ∈ ls, l.span.stop ≤ source.utf8ByteSize
  ordered : ls.Pairwise fun l m => l.span.stop ≤ m.span.start
  layout : ∀ a ∈ gaps 0 source.utf8ByteSize ls,
    ∃ text after, a.Cuts source text after ∧ text.toList ∈ Pattern.layout

/-! ## Where pieces stand -/

section

variable {rest cs : List Char} {n : Nat} {ls : List Lexeme}

theorem cuts_of_toList_eq {source : String} {before w after : List Char}
    (h : source.toList = before ++ w ++ after) :
    Span.Cuts ⟨width before, width before + width w⟩ source (.ofList w) (.ofList after) := by
  refine ⟨.ofList before, ?_, ?_⟩
  · rw [← String.ofList_append, ← String.ofList_append, ← h, String.ofList_toList]
  · rw [width_eq_utf8ByteSize, width_eq_utf8ByteSize]

/-- Every lexeme stands in the text, and is a word there. -/
theorem Scans.exists_word {l : Lexeme} (h : Scans rest n cs ls) (hl : l ∈ ls) :
    ∃ before w after, cs = before ++ w ++ after ∧ Word l.token w (after ++ rest) ∧
      l.span = ⟨n + width before, n + width before + width w⟩ := by
  induction h with
  | nil => cases hl
  | @space n c cs ls _ _ ih =>
    obtain ⟨before, w, after, rfl, hw, hspan⟩ := ih hl
    refine ⟨c :: before, w, after, rfl, hw, ?_⟩
    rw [hspan]
    simp [Nat.add_assoc]
  | @comment n b cs ls _ _ _ ih =>
    obtain ⟨before, w, after, rfl, hw, hspan⟩ := ih hl
    refine ⟨'/' :: '/' :: b ++ before, w, after, by simp, hw, ?_⟩
    rw [hspan, width_append, Nat.add_assoc n]
  | @word n t w cs ls hw _ ih =>
    rcases List.mem_cons.1 hl with rfl | hl
    · exact ⟨[], w, cs, rfl, hw, rfl⟩
    · obtain ⟨before, v, after, rfl, hv, hspan⟩ := ih hl
      refine ⟨w ++ before, v, after, by simp, hv, ?_⟩
      rw [hspan, width_append, Nat.add_assoc n]

/-! ## Gaps -/

theorem mem_layout_append {g w : List Char} {p : Pattern} (hg : g ∈ Pattern.layout)
    (hp : p = .blank ∨ p = .comment) (hw : w ∈ p.language) : g ++ w ∈ Pattern.layout := by
  have hpiece : w ∈ Pattern.blank.language + Pattern.comment.language := by
    rcases hp with rfl | rfl
    · exact .inl hw
    · exact .inr hw
  rw [Pattern.layout, ← Language.one_add_kstar_mul_self_eq_kstar]
  exact .inr (Language.append_mem_mul hg hpiece)

/-- Each gap is blanks and comments; the first one goes on with `g`, which is already read. -/
theorem Scans.exists_layout {a : Span} (h : Scans rest n cs ls) {g : List Char} {k : Nat}
    (hg : g ∈ Pattern.layout) (hn : n = k + width g) (ha : a ∈ gaps k (n + width cs) ls) :
    ∃ before w after, g ++ cs = before ++ w ++ after ∧ w ∈ Pattern.layout ∧
      a = ⟨k + width before, k + width before + width w⟩ := by
  induction h generalizing g k with
  | nil =>
    obtain rfl := List.mem_singleton.1 ha
    exact ⟨[], g, [], by simp, hg, by simp [hn]⟩
  | @space n c cs ls hc _ ih =>
    have hblank : [c] ∈ Pattern.blank.language := by
      refine mem_run.2 ⟨List.cons_ne_nil c [], fun d hd => ?_⟩
      obtain rfl := List.mem_singleton.1 hd
      exact isSpace_iff.1 hc
    have hg' := mem_layout_append hg (.inl rfl) hblank
    have := ih (k := k) hg' (by simp [hn, Nat.add_assoc]) (by simpa [Nat.add_assoc] using ha)
    simpa using this
  | @comment n b cs ls hb _ _ ih =>
    have hcomment : '/' :: '/' :: b ∈ Pattern.comment.language := by
      refine Language.append_mem_mul (Set.mem_singleton _) (mem_kstar_single.2 fun c hc => ?_)
      rintro rfl
      exact hb hc
    have hg' := mem_layout_append hg (.inr rfl) hcomment
    have := ih (k := k) hg' (by simp [hn, Nat.add_assoc]) (by simpa [Nat.add_assoc] using ha)
    simpa using this
  | @word n t w cs ls hw _ ih =>
    rcases List.mem_cons.1 ha with rfl | ha
    · exact ⟨[], g, w ++ cs, rfl, hg, by simp [hn]⟩
    · obtain ⟨before, v, after, hcs, hv, rfl⟩ :=
        ih (g := []) (k := n + width w) (Language.nil_mem_kstar _) rfl
          (by simpa [Nat.add_assoc] using ha)
      rw [List.nil_append] at hcs
      refine ⟨g ++ w ++ before, v, after, by simp [hcs], hv, ?_⟩
      simp [hn, Nat.add_assoc]

end

/-! ## Sources that scan -/

/-- A name is no fixed word, or it would be that. -/
theorem display_ne_of_reads_ident {cs w : List Char} {p : Pattern} {t : Token} {x : String}
    (hmunch : Munch cs w p) (hreads : Reads p w (.ident x)) (ht : t ∈ fixedWords) :
    t.display ≠ x := by
  intro hx
  cases hreads with
  | fixed => exact absurd hmunch.fits.1 (by simp [fixedWords])
  | name =>
    have hfixed : w ∈ (Pattern.fixed t).language := ⟨ht, by rw [hx, String.toList_ofList]⟩
    rcases hmunch.tie _ hfixed with h | h <;> cases h

/-- What scans is cut into its lexemes. -/
theorem Scans.isCutInto {source : String} {ls : List Lexeme}
    (h : Scans [] 0 source.toList ls) : IsCutInto source ls where
  pieces l hl := by
    obtain ⟨before, w, after, hsource, hw, hspan⟩ := h.exists_word hl
    obtain ⟨p, hmunch, hreads⟩ := hw.exists_munch
    simp only [Nat.zero_add] at hspan
    refine ⟨.ofList w, .ofList after, p, hspan ▸ cuts_of_toList_eq hsource, ?_⟩
    rw [List.append_nil] at hmunch
    rw [String.toList_ofList, String.toList_ofList]
    exact ⟨hmunch, hreads⟩
  names l hl x hx t ht := by
    obtain ⟨before, w, after, -, hw, -⟩ := h.exists_word hl
    obtain ⟨p, hmunch, hreads⟩ := hw.exists_munch
    exact display_ne_of_reads_ident hmunch (hx ▸ hreads) ht
  nonempty l hl := (h.spans.1 l hl).2.1
  inside l hl := by
    have := (h.spans.1 l hl).2.2
    rwa [Nat.zero_add, width_eq_utf8ByteSize, String.ofList_toList] at this
  ordered := h.spans.2
  layout a ha := by
    have hsize : source.utf8ByteSize = 0 + width source.toList := by
      rw [Nat.zero_add, width_eq_utf8ByteSize, String.ofList_toList]
    rw [hsize] at ha
    obtain ⟨before, w, after, hsource, hw, rfl⟩ :=
      h.exists_layout (g := []) (Language.nil_mem_kstar _) rfl ha
    simp only [Nat.zero_add]
    refine ⟨.ofList w, .ofList after, cuts_of_toList_eq hsource, ?_⟩
    rwa [String.toList_ofList]

/-! ## Sources that do not -/

/-- A piece that is no token begins nowhere, or is a number that is too large. -/
theorem Explains.of_bad {piece : Piece} {cause : ScanCause} (h : Explains piece)
    (hbad : piece.kind = .bad cause) :
    cause = .unexpected (.ofList piece.slice) ∧ Unfit (piece.slice ++ piece.rest) ∨
      cause = .outOfRange (.ofList piece.slice) ∧
        Munch (piece.slice ++ piece.rest) piece.slice .int ∧
          maxInt < Text.natOfDigits piece.slice := by
  cases h with
  | outOfRange hne hds hmax hnext =>
    cases hbad
    exact .inr ⟨rfl, munch_digits hne hds hnext, hmax⟩
  | unexpected h =>
    cases hbad
    exact .inl ⟨rfl, h⟩
  | _ => cases hbad

/-! ## Top theorem -/

/-- A source is cut into the longest pieces; where that fails, no piece starts or the longest is a
number too large, and the text before it scans. -/
theorem tokenize_cuts (source : String) :
    match tokenize source with
    | .ok ls => IsCutInto source ls
    | .error e => ∃ (cause : ScanCause) (span : Span) (before text after : String)
        (ls : List Lexeme),
        e = .lexer cause.message span ∧ source = before ++ text ++ after ∧
        span = ⟨before.utf8ByteSize, before.utf8ByteSize + text.utf8ByteSize⟩ ∧
        span.start < span.stop ∧ tokenize before = .ok ls ∧
        (cause = .unexpected text ∧ Unfit (text.toList ++ after.toList) ∨
          cause = .outOfRange text ∧ Munch (text.toList ++ after.toList) text.toList .int ∧
            Int64.maxValue.toInt < Text.natOfDigits text.toList) := by
  unfold tokenize
  cases hscan : scan source with
  | ok ls => exact (scan_eq_ok_iff.1 hscan).isCutInto
  | error e =>
    obtain ⟨before, ls, c, r, cause, hsource, h, hbad, rfl⟩ := scan_eq_error_iff.1 hscan
    have hbefore : Scans [] 0 before ls := h.of_head nofun
    have hok : tokenize (.ofList before) = .ok ls := by
      rw [tokenize, hbefore.scan_eq]
      rfl
    have hpos := width_pos (firstPiece_slice_ne_nil c r)
    rw [← firstPiece_append c r, ← List.append_assoc] at hsource
    refine ⟨cause, _, .ofList before, .ofList (firstPiece c r).slice,
      .ofList (firstPiece c r).rest, ls, rfl, ?_, ?_, by simpa using hpos, hok, ?_⟩
    · rw [← String.ofList_append, ← String.ofList_append, ← hsource, String.ofList_toList]
    · rw [width_eq_utf8ByteSize, width_eq_utf8ByteSize]
    · rw [String.toList_ofList, String.toList_ofList]
      refine ((explains_firstPiece c r).of_bad hbad).imp_right fun ⟨hcause, hmunch, hmax⟩ => ?_
      have hmaxInt : Int64.maxValue.toInt = maxInt := by decide
      exact ⟨hcause, hmunch, by rw [hmaxInt]; exact Int.ofNat_lt.2 hmax⟩

end Token

end MonkeyLang
