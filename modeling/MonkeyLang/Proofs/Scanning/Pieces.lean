import MonkeyLang.Proofs.Scanning.Patterns

/-!
# Pieces

What the scanner takes for the first piece of a text.  Whether a text begins with a token is said
by the characters of the token and the one behind them alone (`Word`), so a token stays one before
any text that begins alike (`Word.of_head`).

    Explains (firstPiece c cs)                                              (explains_firstPiece)
    Word t w after → ∃ p, Munch (w ++ after) w p ∧ Reads p w t              (Word.exists_munch)
-/

namespace MonkeyLang.Token

/-- The text does not begin with a character of the class. -/
def Ends (p : Char → Bool) (cs : List Char) : Prop := ∀ c ∈ cs.head?, p c = false

/-- Two signs that are read together. -/
def Joins (c d : Char) : Prop := c = '/' ∧ d = '/' ∨ (c = '=' ∨ c = '!') ∧ d = '='

/-- No other sign is read together with the next. -/
theorem not_joins {c : Char} (hc : c ∉ ['/', '=', '!']) (d : Char) : ¬ Joins c d := by
  rintro (⟨rfl, -⟩ | ⟨rfl | rfl, -⟩)
  all_goals simp at hc

/-- Before the text `after`, the characters `w` are the token. -/
inductive Word : Token → List Char → List Char → Prop
  | int {n : Int64} {ds after : List Char} (hne : ds ≠ []) (hds : ∀ c ∈ ds, c.isDigit)
      (hn : n.toInt = Text.natOfDigits ds) (hnext : Ends Char.isDigit after) :
      Word (.int n) ds after
  | name {c : Char} {cs after : List Char} (hc : isNameStart c) (hcs : ∀ d ∈ cs, isNameRest d)
      (hnext : Ends isNameRest after) :
      Word ((reserved? (.ofList (c :: cs))).getD (.ident (.ofList (c :: cs)))) (c :: cs) after
  | str {b t after : List Char} (h : Spelled b t) :
      Word (.str (.ofList t)) ('"' :: b ++ ['"']) after
  | eqEq {after : List Char} : Word .eqEq ['=', '='] after
  | notEq {after : List Char} : Word .notEq ['!', '='] after
  | sign {c : Char} {t : Token} {after : List Char} (ht : sign? c = some t)
      (hnext : ∀ d ∈ after.head?, ¬ Joins c d) : Word t [c] after

/-- What a first piece says about the text that it is taken from. -/
inductive Explains : Piece → Prop
  | blank {w after : List Char} (hw : ∀ c ∈ w, isSpace c) : Explains ⟨.gap, w, after⟩
  | comment {b after : List Char} (hb : '\n' ∉ b) (hnext : ∀ c ∈ after.head?, c = '\n') :
      Explains ⟨.gap, '/' :: '/' :: b, after⟩
  | word {t : Token} {w after : List Char} (h : Word t w after) : Explains ⟨.token t, w, after⟩
  | outOfRange {ds after : List Char} (hne : ds ≠ []) (hds : ∀ c ∈ ds, c.isDigit)
      (hmax : maxInt < Text.natOfDigits ds) (hnext : Ends Char.isDigit after) :
      Explains ⟨.bad (.outOfRange (.ofList ds)), ds, after⟩
  | unexpected {w after : List Char} (h : Unfit (w ++ after)) :
      Explains ⟨.bad (.unexpected (.ofList w)), w, after⟩

/-! ## Runs of a class -/

section

variable {p : Char → Bool} {cs after : List Char}

/-- The characters of a class are taken up to where they end. -/
theorem takeWhile_append_of_ends (hcs : ∀ c ∈ cs, p c) (h : Ends p after) :
    (cs ++ after).takeWhile p = cs := by
  rw [List.takeWhile_append_of_pos hcs]
  cases after with
  | nil => simp
  | cons c after => rw [List.takeWhile_cons_of_neg (by simp [h c rfl]), List.append_nil]

theorem dropWhile_append_of_ends (hcs : ∀ c ∈ cs, p c) (h : Ends p after) :
    (cs ++ after).dropWhile p = after := by
  rw [List.dropWhile_append_of_pos hcs]
  cases after with
  | nil => rfl
  | cons c after => rw [List.dropWhile_cons_of_neg (by simp [h c rfl])]

theorem ends_dropWhile (p : Char → Bool) (cs : List Char) : Ends p (cs.dropWhile p) := by
  intro c hc
  have h := List.head?_dropWhile_not p cs
  rw [Option.mem_def.1 hc] at h
  exact h

/-- No run of the class goes on beyond its end. -/
theorem length_le_of_ends {v : List Char} (hv : v <+: cs ++ after) (hall : ∀ c ∈ v, p c)
    (h : Ends p after) : v.length ≤ cs.length := by
  by_contra hlt
  obtain ⟨u, hu⟩ := List.prefix_of_prefix_length_le (List.prefix_append cs after) hv (by omega)
  subst hu
  cases u with
  | nil => simp at hlt
  | cons c u =>
    rw [List.prefix_append_right_inj] at hv
    obtain ⟨r, rfl⟩ := hv
    have hc : p c = true := hall c (by simp)
    rw [h c rfl] at hc
    cases hc

end

/-! ## Characters -/

section

variable {c : Char}

theorem isSpace_iff : isSpace c ↔ c ∈ [' ', '\t', '\n', '\r'] := by
  simp [isSpace, or_assoc]

theorem isNameStart_iff : isNameStart c ↔ c.isAlpha ∨ c = '_' := by
  simp [isNameStart]

theorem isNameRest_iff : isNameRest c ↔ c.isAlphanum ∨ c = '_' := by
  simp [isNameRest, isNameStart, Char.isAlphanum, or_right_comm]

/-- The classes of characters that pieces of several characters start with have none in common. -/
theorem isSpace_eq_false_of_isNameRest (h : isNameRest c) : isSpace c = false := by
  rw [Bool.eq_false_iff]
  intro hs
  have hs := isSpace_iff.1 hs
  simp only [List.mem_cons, List.not_mem_nil, or_false] at hs
  rcases hs with rfl | rfl | rfl | rfl <;> cases h

theorem isNameRest_of_isDigit (h : c.isDigit) : isNameRest c := by
  simp [isNameRest, h]

theorem isNameRest_of_isNameStart (h : isNameStart c) : isNameRest c := by
  simp [isNameRest, h]

theorem isDigit_eq_false_of_isNameStart (h : isNameStart c) : c.isDigit = false := by
  rcases isNameStart_iff.1 h with h | rfl
  · delta Char.isAlpha Char.isUpper Char.isLower at h
    delta Char.isDigit
    simp only [Bool.or_eq_true, Bool.and_eq_true, Bool.and_eq_false_iff, decide_eq_true_eq,
      decide_eq_false_iff_not, UInt32.le_iff_toNat_le, ge_iff_le] at h ⊢
    have : 'A'.val.toNat = 65 := rfl
    have : 'Z'.val.toNat = 90 := rfl
    have : 'a'.val.toNat = 97 := rfl
    have : '9'.val.toNat = 57 := rfl
    omega
  · rfl

theorem isNameRest_eq_false_of_sign? {t : Token} (h : sign? c = some t) :
    isNameRest c = false := by
  unfold sign? at h
  split at h <;> first | rfl | cases h

theorem isSpace_eq_false_of_sign? {t : Token} (h : sign? c = some t) : isSpace c = false := by
  unfold sign? at h
  split at h <;> first | rfl | cases h

end

/-- The classes of characters that pieces begin with. -/
inductive CharClass where
  | space
  | digit
  | letter
  | quote
  | sign
  | other
deriving DecidableEq

/-- The class of a character, by the test that the scanner makes first. -/
def classOf (c : Char) : CharClass :=
  if isSpace c then .space
  else if c.isDigit then .digit
  else if isNameStart c then .letter
  else if c = '"' then .quote
  else if (sign? c).isSome then .sign
  else .other

section

variable {c : Char}

theorem classOf_of_isSpace (h : isSpace c) : classOf c = .space := by
  rw [classOf, if_pos h]

theorem classOf_of_isDigit (h : c.isDigit) : classOf c = .digit := by
  rw [classOf, isSpace_eq_false_of_isNameRest (isNameRest_of_isDigit h),
    if_neg Bool.false_ne_true, if_pos h]

theorem classOf_of_isNameStart (h : isNameStart c) : classOf c = .letter := by
  rw [classOf, isSpace_eq_false_of_isNameRest (isNameRest_of_isNameStart h),
    if_neg Bool.false_ne_true, isDigit_eq_false_of_isNameStart h, if_neg Bool.false_ne_true,
    if_pos h]

theorem classOf_of_sign? {t : Token} (h : sign? c = some t) : classOf c = .sign := by
  unfold sign? at h
  split at h <;> first | rfl | cases h

end

/-! ## What pieces begin with -/

/-- A fixed word is a name, a sign, or one of the two that are made of two signs. -/
theorem cases_of_mem_fixedWords {t : Token} (h : t ∈ fixedWords) :
    (reserved? t.display = some t ∧ ∃ c cs, t.display.toList = c :: cs ∧ isNameStart c ∧
      ∀ d ∈ cs, isNameRest d) ∨
    (∃ c, t.display.toList = [c] ∧ sign? c = some t) ∨ t = eqEq ∨ t = notEq := by
  cases t
  all_goals first
    | exact .inl ⟨rfl, _, _, rfl, rfl, List.all_eq_true.1 rfl⟩
    | exact .inr (.inl ⟨_, rfl, rfl⟩)
    | exact .inr (.inr (.inl rfl))
    | exact .inr (.inr (.inr rfl))
    | simp [fixedWords] at h

/-- What the pieces of a kind begin with. -/
def Pattern.starts : Pattern → List CharClass
  | blank => [.space]
  | comment => [.sign]
  | fixed _ => [.letter, .sign]
  | int => [.digit]
  | str => [.quote]
  | name => [.letter]

/-- No pattern fits the empty piece, and the first character says which may fit. -/
theorem Pattern.starts_of_mem {q : Pattern} {w : List Char} (h : w ∈ q.language) :
    ∃ c cs, w = c :: cs ∧ classOf c ∈ q.starts := by
  cases q with
  | blank =>
    obtain ⟨hne, hw⟩ := mem_run.1 h
    obtain ⟨c, cs, rfl⟩ := List.exists_cons_of_ne_nil hne
    have hc := isSpace_iff.2 (hw c (List.mem_cons_self ..))
    exact ⟨c, cs, rfl, by simp [starts, classOf_of_isSpace hc]⟩
  | comment =>
    obtain ⟨_, rfl, b, -, rfl⟩ := Language.mem_mul.1 h
    exact ⟨_, _, rfl, by decide⟩
  | fixed t =>
    obtain ⟨ht, rfl⟩ := h
    rcases cases_of_mem_fixedWords ht with ⟨-, c, cs, hw, hc, -⟩ | ⟨c, hw, hc⟩ | rfl | rfl
    · exact ⟨c, cs, hw, by simp [starts, classOf_of_isNameStart hc]⟩
    · exact ⟨c, [], hw, by simp [starts, classOf_of_sign? hc]⟩
    · exact ⟨_, _, rfl, by decide⟩
    · exact ⟨_, _, rfl, by decide⟩
  | int =>
    obtain ⟨hne, hw⟩ := mem_run.1 h
    obtain ⟨c, cs, rfl⟩ := List.exists_cons_of_ne_nil hne
    have hc := hw c (List.mem_cons_self ..)
    exact ⟨c, cs, rfl, by simp [starts, classOf_of_isDigit hc]⟩
  | str =>
    obtain ⟨b, t, -, rfl⟩ := mem_str.1 h
    exact ⟨_, _, rfl, by decide⟩
  | name =>
    obtain ⟨c, cs, rfl, hc, -⟩ := mem_single_mul_kstar.1 h
    exact ⟨c, cs, rfl, by simp [starts, classOf_of_isNameStart (isNameStart_iff.2 hc)]⟩

/-! ## First pieces -/

theorem intPiece_eq {ds : List Char} (h : Text.natOfDigits ds ≤ maxInt) (rest : List Char) :
    intPiece ds rest = ⟨.token (int (.ofNat (Text.natOfDigits ds))), ds, rest⟩ := by
  have hcap : Text.cappedNat (maxInt + 1) ds = Text.natOfDigits ds := by
    rw [Text.cappedNat_eq, Nat.min_eq_left (by omega)]
  rw [intPiece, hcap]
  exact if_pos h

theorem intPiece_eq_of_lt {ds : List Char} (h : maxInt < Text.natOfDigits ds) (rest : List Char) :
    intPiece ds rest = ⟨.bad (.outOfRange (.ofList ds)), ds, rest⟩ := by
  have hcap : Text.cappedNat (maxInt + 1) ds = maxInt + 1 := by
    rw [Text.cappedNat_eq, Nat.min_eq_right (by omega)]
  rw [intPiece, hcap]
  exact if_neg (by omega)

theorem firstPiece_of_isSpace {c : Char} (h : isSpace c) (cs : List Char) :
    firstPiece c cs = ⟨.gap, c :: cs.takeWhile isSpace, cs.dropWhile isSpace⟩ := by
  rw [firstPiece.eq_def, if_pos h]

theorem firstPiece_of_isDigit {c : Char} (h : c.isDigit) (cs : List Char) :
    firstPiece c cs =
      intPiece (c :: cs.takeWhile Char.isDigit) (cs.dropWhile Char.isDigit) := by
  rw [firstPiece.eq_def, isSpace_eq_false_of_isNameRest (isNameRest_of_isDigit h),
    if_neg Bool.false_ne_true, if_pos h]

theorem firstPiece_of_isNameStart {c : Char} (h : isNameStart c) (cs : List Char) :
    firstPiece c cs =
      namePiece (c :: cs.takeWhile isNameRest) (cs.dropWhile isNameRest) := by
  rw [firstPiece.eq_def, isSpace_eq_false_of_isNameRest (isNameRest_of_isNameStart h),
    if_neg Bool.false_ne_true, isDigit_eq_false_of_isNameStart h, if_neg Bool.false_ne_true,
    if_pos h]

theorem firstPiece_of_sign? {c : Char} {t : Token} (h : sign? c = some t) {cs : List Char}
    (hnext : ∀ d ∈ cs.head?, ¬ Joins c d) : firstPiece c cs = ⟨.token t, [c], cs⟩ := by
  have hrest := isNameRest_eq_false_of_sign? h
  have hspace := isSpace_eq_false_of_sign? h
  simp only [isNameRest, Bool.or_eq_false_iff] at hrest
  rw [firstPiece.eq_def, hspace, hrest.1, hrest.2]
  simp only [Bool.false_eq_true, if_false]
  split
  · cases h
  · exact absurd (.inl ⟨rfl, rfl⟩) (hnext _ rfl)
  · exact absurd (.inr ⟨.inl rfl, rfl⟩) (hnext _ rfl)
  · exact absurd (.inr ⟨.inr rfl, rfl⟩) (hnext _ rfl)
  · rw [signPiece, h]

/-- Digits that are too large a number are cut out whole. -/
theorem firstPiece_of_maxInt_lt {c : Char} {ds after : List Char} (hds : ∀ d ∈ c :: ds, d.isDigit)
    (hmax : maxInt < Text.natOfDigits (c :: ds)) (hnext : Ends Char.isDigit after) :
    firstPiece c (ds ++ after) = ⟨.bad (.outOfRange (.ofList (c :: ds))), c :: ds, after⟩ := by
  obtain ⟨hc, hds⟩ := List.forall_mem_cons.1 hds
  rw [firstPiece_of_isDigit hc, takeWhile_append_of_ends hds hnext,
    dropWhile_append_of_ends hds hnext, intPiece_eq_of_lt hmax]

/-- The scanner takes the words of the language for what they are. -/
theorem Word.firstPiece_eq {t : Token} {w after : List Char} :
    Word t w after → ∃ c cs, w = c :: cs ∧ firstPiece c (cs ++ after) = ⟨.token t, w, after⟩
  | .int (n := n) hne hds hn hnext => by
    obtain ⟨c, cs, rfl⟩ := List.exists_cons_of_ne_nil hne
    obtain ⟨hc, hcs⟩ := List.forall_mem_cons.1 hds
    have hlt := n.toInt_lt
    have hmax : Text.natOfDigits (c :: cs) ≤ maxInt := by
      rw [hn] at hlt
      simp only [maxInt]
      omega
    have hvalue : Int64.ofNat (Text.natOfDigits (c :: cs)) = n := by
      rw [← Int64.toInt_inj, hn]
      exact Int64.toInt_ofNat_of_lt (by simp only [maxInt] at hmax; omega)
    refine ⟨c, cs, rfl, ?_⟩
    rw [firstPiece_of_isDigit hc, takeWhile_append_of_ends hcs hnext,
      dropWhile_append_of_ends hcs hnext, intPiece_eq hmax, hvalue]
  | .name hc hcs hnext => by
    refine ⟨_, _, rfl, ?_⟩
    rw [firstPiece_of_isNameStart hc, takeWhile_append_of_ends hcs hnext,
      dropWhile_append_of_ends hcs hnext, namePiece]
  | .str (b := b) h => by
    refine ⟨'"', b ++ ['"'], rfl, ?_⟩
    have hbody : stringBody [] (b ++ '"' :: after) = (b, '"' :: after) := h.stringBody_eq [] after
    show stringPiece (b ++ ['"'] ++ after) = _
    rw [List.append_assoc, List.singleton_append, stringPiece, hbody, ← h.unescape_eq]
    rfl
  | .eqEq => ⟨_, _, rfl, rfl⟩
  | .notEq => ⟨_, _, rfl, rfl⟩
  | .sign ht hnext => ⟨_, _, rfl, firstPiece_of_sign? ht hnext⟩

theorem Word.ne_nil {t : Token} {w after : List Char} (h : Word t w after) : w ≠ [] := by
  obtain ⟨c, cs, rfl, -⟩ := h.firstPiece_eq
  exact List.cons_ne_nil c cs

/-- A comment goes on to the end of its line. -/
theorem firstPiece_of_comment {b after : List Char} (hb : '\n' ∉ b)
    (hnext : ∀ c ∈ after.head?, c = '\n') :
    firstPiece '/' ('/' :: b ++ after) = ⟨.gap, '/' :: '/' :: b, after⟩ := by
  have hline : ∀ c ∈ b, (c != '\n') = true := by
    intro c hc
    rw [bne_iff_ne]
    rintro rfl
    exact hb hc
  have hends : Ends (· != '\n') after := by
    intro c hc
    rw [hnext c hc]
    rfl
  show Piece.mk .gap ('/' :: '/' :: (b ++ after).takeWhile (· != '\n'))
    ((b ++ after).dropWhile (· != '\n')) = _
  rw [takeWhile_append_of_ends hline hends, dropWhile_append_of_ends hline hends]

/-- A text that no pattern starts like has no piece. -/
theorem unfit_of_classOf {c : Char} (h : classOf c = .other) (cs : List Char) :
    Unfit (c :: cs) := by
  rintro q w hw hmem
  obtain ⟨d, ds, rfl, hd⟩ := Pattern.starts_of_mem hmem
  obtain ⟨rfl, -⟩ := List.cons_prefix_cons.1 hw
  rw [h] at hd
  cases q <;> simp [Pattern.starts] at hd

/-- A string literal that is not closed is no piece. -/
theorem unfit_quote {cs b rest : List Char} (h : stringBody [] cs = (b, rest))
    (hrest : '"' ∉ rest.head?) : Unfit ('"' :: cs) := by
  rintro q w hw hmem
  obtain ⟨d, ds, rfl, hd⟩ := Pattern.starts_of_mem hmem
  obtain ⟨rfl, -⟩ := List.cons_prefix_cons.1 hw
  have hstr : q = .str := by
    have hquote : classOf '"' = .quote := rfl
    rw [hquote] at hd
    cases q <;> simp_all [Pattern.starts]
  subst hstr
  obtain ⟨b', t, hb, hds⟩ := Pattern.mem_str.1 hmem
  rw [hds] at hw
  obtain ⟨after, heq⟩ := hw
  have hbody := hb.stringBody_eq [] after
  simp only [List.cons_append, List.append_assoc, List.nil_append, List.cons.injEq,
    true_and] at heq
  rw [heq, h] at hbody
  cases hbody
  exact hrest rfl

/-- A string literal is a token if it is closed; else its quote begins none. -/
theorem explains_stringPiece (cs : List Char) : Explains (stringPiece cs) := by
  obtain ⟨b, t, rest, hb, rfl, hbody⟩ := exists_spelled_stringBody [] cs
  rw [List.reverse_nil, List.nil_append] at hbody
  rw [stringPiece, hbody]
  split
  · next h =>
    cases h
    rw [hb.unescape_eq]
    exact .word (.str hb)
  · next hne h =>
    cases h
    have hrest : '"' ∉ rest.head? := by
      intro hq
      obtain ⟨after, rfl⟩ := List.head?_eq_some_iff.1 hq
      exact hne _ rfl
    have hunfit := unfit_quote hbody hrest
    exact .unexpected hunfit

/-- Whatever is cut off at the head of a text, there is a reason for it. -/
theorem explains_firstPiece (c : Char) (cs : List Char) : Explains (firstPiece c cs) := by
  have hall : ∀ (p : Char → Bool) (ds : List Char), ∀ d ∈ ds.takeWhile p, p d :=
    fun p ds => List.all_eq_true.1 List.all_takeWhile
  by_cases hs : isSpace c
  · rw [firstPiece_of_isSpace hs]
    exact .blank (List.forall_mem_cons.2 ⟨hs, hall isSpace cs⟩)
  by_cases hd : c.isDigit
  · rw [firstPiece_of_isDigit hd]
    have hds : ∀ d ∈ c :: cs.takeWhile Char.isDigit, d.isDigit :=
      List.forall_mem_cons.2 ⟨hd, hall Char.isDigit cs⟩
    have hnext := ends_dropWhile Char.isDigit cs
    by_cases hmax : Text.natOfDigits (c :: cs.takeWhile Char.isDigit) ≤ maxInt
    · rw [intPiece_eq hmax]
      refine .word (.int (List.cons_ne_nil _ _) hds ?_ hnext)
      exact Int64.toInt_ofNat_of_lt (by simp only [maxInt] at hmax; omega)
    · rw [intPiece_eq_of_lt (by omega)]
      exact .outOfRange (List.cons_ne_nil _ _) hds (by omega) hnext
  by_cases hn : isNameStart c
  · rw [firstPiece_of_isNameStart hn]
    exact .word (.name hn (hall isNameRest cs) (ends_dropWhile isNameRest cs))
  rw [firstPiece.eq_def, if_neg hs, if_neg hd, if_neg hn]
  split
  · exact explains_stringPiece _
  · next rest =>
    refine .comment (fun h => ?_) (fun d hd => ?_)
    · cases hall (· != '\n') rest _ h
    · have := ends_dropWhile (· != '\n') rest d hd
      simpa using this
  · exact .word .eqEq
  · exact .word .notEq
  · next hquote hslash heq hbang =>
    rw [signPiece]
    split
    · next t ht =>
      refine .word (.sign ht ?_)
      rintro d hd' hj
      obtain ⟨rest, rfl⟩ := List.head?_eq_some_iff.1 hd'
      obtain ⟨rfl, rfl⟩ | ⟨rfl | rfl, rfl⟩ := hj
      · exact hslash _ rfl rfl
      · exact heq _ rfl rfl
      · exact hbang _ rfl rfl
    · next ht =>
      rw [String.singleton_eq_ofList]
      refine .unexpected (unfit_of_classOf ?_ cs)
      rw [classOf, if_neg hs, if_neg hd, if_neg hn, if_neg hquote, ht]
      rfl

/-! ## Words and the text behind them -/

/-- Characters that no token goes on with, if it ends before them. -/
def separates (c : Char) : Bool := !isNameRest c && c != '=' && c != '/'

/-- A word stays one before a text that begins alike or does not go on with any word. -/
theorem Word.of_head {t : Token} {w after after' : List Char}
    (hhead : ∀ c ∈ after'.head?, c ∈ after.head? ∨ separates c) :
    Word t w after → Word t w after'
  | .int hne hds hn hnext => by
    refine .int hne hds hn fun c hc => ?_
    rcases hhead c hc with h | h
    · exact hnext c h
    · simp only [separates, isNameRest, Bool.and_eq_true, Bool.not_eq_true',
        Bool.or_eq_false_iff] at h
      exact h.1.1.2
  | .name hc hcs hnext => by
    refine .name hc hcs fun c hc => ?_
    rcases hhead c hc with h | h
    · exact hnext c h
    · simp only [separates, Bool.and_eq_true, Bool.not_eq_true'] at h
      exact h.1.1
  | .str h => .str h
  | .eqEq => .eqEq
  | .notEq => .notEq
  | .sign ht hnext => by
    refine .sign ht fun d hd hj => ?_
    rcases hhead d hd with h | h
    · exact hnext d h hj
    · obtain ⟨-, rfl⟩ | ⟨-, rfl⟩ := hj <;> cases h

/-! ## Words are what counts -/

/-- With one of few patterns and no more than so many characters, a piece counts. -/
theorem munch_of_starts {c : Char} {cs after : List Char} {p : Pattern}
    (fits : c :: cs ∈ p.language)
    (longest : ∀ (q : Pattern) v, classOf c ∈ q.starts → c :: v <+: c :: cs ++ after →
      c :: v ∈ q.language → v.length ≤ cs.length)
    (tie : ∀ q : Pattern, classOf c ∈ q.starts → c :: cs ∈ q.language → q = p ∨ q = .name) :
    Munch (c :: cs ++ after) (c :: cs) p where
  head := List.prefix_append ..
  fits := fits
  longest q v hv hmem := by
    obtain ⟨d, ds, rfl, hd⟩ := Pattern.starts_of_mem hmem
    obtain ⟨rfl, -⟩ := List.cons_prefix_cons.1 hv
    exact Nat.succ_le_succ (longest q ds hd hv hmem)
  tie q hmem := by
    obtain ⟨d, ds, heq, hd⟩ := Pattern.starts_of_mem hmem
    cases heq
    exact tie q hd hmem

/-- A fixed word that begins with a letter is reserved. -/
theorem reserved?_of_mem_fixed {c : Char} {v : List Char} {t : Token} (hc : classOf c = .letter)
    (h : c :: v ∈ (Pattern.fixed t).language) :
    reserved? (.ofList (c :: v)) = some t ∧ ∀ d ∈ v, isNameRest d := by
  obtain ⟨ht, heq⟩ := h
  rcases cases_of_mem_fixedWords ht with ⟨hres, d, ds, hds, -, hrest⟩ | ⟨d, hd, hsign⟩ | rfl | rfl
  · rw [← heq] at hds
    cases hds
    rw [heq, String.ofList_toList]
    exact ⟨hres, hrest⟩
  · rw [← heq] at hd
    cases hd
    rw [classOf_of_sign? hsign] at hc
    cases hc
  · cases heq
    cases hc
  · cases heq
    cases hc

theorem mem_fixed_of_reserved? {w : List Char} {t : Token} (h : reserved? (.ofList w) = some t) :
    w ∈ (Pattern.fixed t).language := by
  have hdisplay : t ∈ fixedWords ∧ String.ofList w = t.display := by
    unfold reserved? at h
    split at h <;> cases h <;> exact ⟨by decide, ‹_›⟩
  exact ⟨hdisplay.1, by rw [← hdisplay.2, String.toList_ofList]⟩

theorem mem_fixed_of_sign? {c : Char} {t : Token} (h : sign? c = some t) :
    [c] ∈ (Pattern.fixed t).language := by
  unfold sign? at h
  split at h <;> cases h <;> exact ⟨by decide, rfl⟩

/-- The pieces that begin with a sign. -/
theorem cases_of_mem_of_sign {q : Pattern} {c : Char} {v : List Char} (hc : classOf c = .sign)
    (h : c :: v ∈ q.language) :
    q = .comment ∧ c = '/' ∧ '/' ∈ v.head? ∨
    (∃ t, q = .fixed t ∧ sign? c = some t ∧ v = []) ∨
    q = .fixed eqEq ∧ c = '=' ∧ v = ['='] ∨ q = .fixed notEq ∧ c = '!' ∧ v = ['='] := by
  obtain ⟨d, ds, heq, hd⟩ := Pattern.starts_of_mem h
  cases heq
  rw [hc] at hd
  cases q with
  | comment =>
    obtain ⟨_, rfl, b, -, heq⟩ := Language.mem_mul.1 h
    cases heq
    exact .inl ⟨rfl, rfl, rfl⟩
  | fixed t =>
    obtain ⟨ht, heq⟩ := h
    rcases cases_of_mem_fixedWords ht with ⟨-, d, ds, hds, hd, -⟩ | ⟨d, hd, hsign⟩ | rfl | rfl
    · rw [← heq] at hds
      cases hds
      rw [classOf_of_isNameStart hd] at hc
      cases hc
    · rw [← heq] at hd
      cases hd
      exact .inr (.inl ⟨t, rfl, hsign, rfl⟩)
    · cases heq
      exact .inr (.inr (.inl ⟨rfl, rfl, rfl⟩))
    · cases heq
      exact .inr (.inr (.inr ⟨rfl, rfl, rfl⟩))
  | blank => simp [Pattern.starts] at hd
  | int => simp [Pattern.starts] at hd
  | str => simp [Pattern.starts] at hd
  | name => simp [Pattern.starts] at hd

/-- No other piece is longer than the digits. -/
theorem munch_digits {ds after : List Char} (hne : ds ≠ []) (hds : ∀ c ∈ ds, c.isDigit)
    (hnext : Ends Char.isDigit after) : Munch (ds ++ after) ds .int := by
  obtain ⟨c, cs, rfl⟩ := List.exists_cons_of_ne_nil hne
  have hc := classOf_of_isDigit (hds c (List.mem_cons_self ..))
  have hint : ∀ q : Pattern, classOf c ∈ q.starts → q = .int := by
    intro q hq
    rw [hc] at hq
    cases q <;> simp_all [Pattern.starts]
  refine munch_of_starts (mem_run.2 ⟨hne, hds⟩) (fun q v hq hv hmem => ?_) (fun q hq _ => ?_)
  · obtain rfl := hint q hq
    exact Nat.le_of_succ_le_succ (length_le_of_ends hv (mem_run.1 hmem).2 hnext)
  · exact .inl (hint q hq)

/-- A name or a reserved word; `tie` says which of the two patterns counts. -/
theorem munch_name {c : Char} {cs after : List Char} {p : Pattern} (hc : isNameStart c)
    (fits : c :: cs ∈ p.language) (hnext : Ends isNameRest after)
    (tie : ∀ t, reserved? (.ofList (c :: cs)) = some t → p = .fixed t) :
    Munch (c :: cs ++ after) (c :: cs) p := by
  have hletter := classOf_of_isNameStart hc
  refine munch_of_starts fits (fun q v hq hv hmem => ?_) (fun q hq hmem => ?_)
  · obtain ⟨-, hv⟩ := List.cons_prefix_cons.1 hv
    refine length_le_of_ends hv (fun d hd => ?_) hnext
    rw [hletter] at hq
    cases q with
    | fixed t => exact (reserved?_of_mem_fixed hletter hmem).2 d hd
    | name =>
      obtain ⟨e, es, heq, -, hes⟩ := mem_single_mul_kstar.1 hmem
      cases heq
      exact isNameRest_iff.2 (hes d hd)
    | _ => simp [Pattern.starts] at hq
  · rw [hletter] at hq
    cases q with
    | fixed t => exact .inl (tie t (reserved?_of_mem_fixed hletter hmem).1).symm
    | name => exact .inr rfl
    | _ => simp [Pattern.starts] at hq

/-- The quote behind a body that is spelled is the first that closes it. -/
theorem munch_str {b t after : List Char} (h : Spelled b t) :
    Munch ('"' :: b ++ ['"'] ++ after) ('"' :: b ++ ['"']) .str := by
  have hstr : ∀ q : Pattern, classOf '"' ∈ q.starts → q = .str := by
    intro q hq
    have hquote : classOf '"' = .quote := rfl
    rw [hquote] at hq
    cases q <;> simp_all [Pattern.starts]
  show Munch ('"' :: (b ++ ['"']) ++ after) ('"' :: (b ++ ['"'])) .str
  refine munch_of_starts (Pattern.mem_str.2 ⟨b, t, h, rfl⟩) (fun q v hq hv hmem => ?_)
    (fun q hq _ => .inl (hstr q hq))
  obtain rfl := hstr q hq
  obtain ⟨b', t', h', heq⟩ := Pattern.mem_str.1 hmem
  rw [heq] at hv
  obtain ⟨after', hv⟩ := hv
  -- both bodies are the longest one at the head of the same text
  have hbody := h.stringBody_eq [] after
  have hbody' := h'.stringBody_eq [] after'
  simp only [List.cons_append, List.append_assoc, List.nil_append, List.cons.injEq, true_and] at hv
  rw [hv, hbody] at hbody'
  cases hbody'
  cases heq
  exact Nat.le_refl _

/-- A sign that is not read together with the next one. -/
theorem munch_sign {c : Char} {t : Token} {after : List Char} (ht : sign? c = some t)
    (hnext : ∀ d ∈ after.head?, ¬ Joins c d) : Munch ([c] ++ after) [c] (.fixed t) := by
  have hsign := classOf_of_sign? ht
  refine munch_of_starts (mem_fixed_of_sign? ht) (fun q v _ hv hmem => ?_) (fun q _ hmem => ?_)
  · obtain ⟨-, r, rfl⟩ := List.cons_prefix_cons.1 hv
    rcases cases_of_mem_of_sign hsign hmem with ⟨-, rfl, hd⟩ | ⟨_, -, -, rfl⟩ | ⟨-, rfl, rfl⟩ |
      ⟨-, rfl, rfl⟩
    · obtain ⟨ds, rfl⟩ := List.head?_eq_some_iff.1 hd
      exact absurd (.inl ⟨rfl, rfl⟩) (hnext _ rfl)
    · exact Nat.le_refl _
    · exact absurd (.inr ⟨.inl rfl, rfl⟩) (hnext _ rfl)
    · exact absurd (.inr ⟨.inr rfl, rfl⟩) (hnext _ rfl)
  · rcases cases_of_mem_of_sign hsign hmem with ⟨-, -, hd⟩ | ⟨u, rfl, hu, -⟩ | ⟨-, -, hv⟩ |
      ⟨-, -, hv⟩
    · cases hd
    · rw [ht] at hu
      cases hu
      exact .inl rfl
    · cases hv
    · cases hv

/-- A sign and the equality sign behind it. -/
theorem munch_pair {c : Char} {t : Token} (h : c = '=' ∧ t = eqEq ∨ c = '!' ∧ t = notEq)
    (after : List Char) : Munch ([c, '='] ++ after) [c, '='] (.fixed t) := by
  have hsign : classOf c = .sign := by
    rcases h with ⟨rfl, -⟩ | ⟨rfl, -⟩ <;> rfl
  have hfits : [c, '='] ∈ (Pattern.fixed t).language := by
    rcases h with ⟨rfl, rfl⟩ | ⟨rfl, rfl⟩ <;> exact ⟨by decide, rfl⟩
  refine munch_of_starts hfits (fun q v _ hv hmem => ?_) (fun q _ hmem => ?_)
  · rcases cases_of_mem_of_sign hsign hmem with ⟨-, rfl, -⟩ | ⟨_, -, -, rfl⟩ | ⟨-, -, rfl⟩ |
      ⟨-, -, rfl⟩
    · rcases h with ⟨h, -⟩ | ⟨h, -⟩ <;> cases h
    · exact Nat.zero_le _
    · exact Nat.le_refl _
    · exact Nat.le_refl _
  · rcases cases_of_mem_of_sign hsign hmem with ⟨-, -, hd⟩ | ⟨_, -, -, hv⟩ | ⟨rfl, rfl, -⟩ |
      ⟨rfl, rfl, -⟩
    · cases hd
    · cases hv
    · rcases h with ⟨-, rfl⟩ | ⟨h, -⟩
      · exact .inl rfl
      · cases h
    · rcases h with ⟨h, -⟩ | ⟨-, rfl⟩
      · cases h
      · exact .inl rfl

/-- The words of the scanner are the longest pieces by their patterns. -/
theorem Word.exists_munch {t : Token} {w after : List Char} :
    Word t w after → ∃ p, Munch (w ++ after) w p ∧ Reads p w t
  | .int hne hds hn hnext => ⟨_, munch_digits hne hds hnext, .int hn⟩
  | @Word.name c cs _ hc hcs hnext => by
    cases hres : reserved? (.ofList (c :: cs)) with
    | some t =>
      refine ⟨_, munch_name hc (mem_fixed_of_reserved? hres) hnext fun u hu => ?_, .fixed⟩
      cases hres.symm.trans hu
      rfl
    | none =>
      have hfits : c :: cs ∈ Pattern.name.language :=
        mem_single_mul_kstar.2 ⟨c, cs, rfl, isNameStart_iff.1 hc,
          fun d hd => isNameRest_iff.1 (hcs d hd)⟩
      refine ⟨_, munch_name hc hfits hnext fun u hu => ?_, .name⟩
      cases hres.symm.trans hu
  | .str h => ⟨_, munch_str h, .str h⟩
  | .eqEq => ⟨_, munch_pair (.inl ⟨rfl, rfl⟩) _, .fixed⟩
  | .notEq => ⟨_, munch_pair (.inr ⟨rfl, rfl⟩) _, .fixed⟩
  | .sign ht hnext => ⟨_, munch_sign ht hnext, .fixed⟩

end MonkeyLang.Token
