import MonkeyLang.Json.Write
import MonkeyLang.Proofs.Json.Grammar

/-!
# What is written is a text

Both forms of a value, on one line and on many, are texts of it (`Proper.isText_compact`,
`Proper.isText_pretty`), if each number in it that is not whole is kept as the text of one.

The writers put a value behind what is there already, so each of them is met by what it adds
(`Adds`).  What comes behind the first item of a list, or behind the first member of an object, is
added in turn, each with its comma (`ItemsBehind`, `MembersBehind`).
-/

namespace MonkeyLang.Json.Grammar

/-- Each number that is not whole is kept as its text. -/
inductive Proper : Json → Prop
  | null : Proper .null
  | bool {b : Bool} : Proper (.bool b)
  | int {n : Int} : Proper (.int n)
  | decimal {text : String} (h : Number text.toList (.decimal text)) : Proper (.decimal text)
  | str {s : String} : Proper (.str s)
  | arr {js : List Json} (h : ∀ j ∈ js, Proper j) : Proper (.arr js)
  | obj {ms : List (String × Json)} (h : ∀ m ∈ ms, Proper m.2) : Proper (.obj ms)

/-! ## Numbers -/

/-- No number above zero is written with a zero in front. -/
theorem head?_toDigits {n : Nat} (h : (Nat.toDigits 10 n).head? = some '0') : n = 0 := by
  induction n using Nat.strongRecOn with
  | ind n ih =>
    by_cases hn : n < 10
    · rw [Nat.toDigits_of_lt_base hn] at h
      exact Nat.digitChar_eq_zero.1 (Option.some.inj h)
    · have hten : 10 ≤ n := Nat.not_lt.1 hn
      have hhead : (Nat.toDigits 10 n).head? = (Nat.toDigits 10 (n / 10)).head? := by
        have hne : Nat.toDigits 10 (n / 10) ≠ [] := Nat.toDigits_ne_nil
        obtain ⟨d, ds, hds⟩ := List.exists_cons_of_ne_nil hne
        rw [Nat.toDigits_of_base_le (by decide) hten, hds]
        rfl
      have := ih (n / 10) (by omega) (hhead ▸ h)
      omega

/-- The digits of a number stand for it. -/
theorem natOfDigits_toDigits (n : Nat) : Text.natOfDigits (Nat.toDigits 10 n) = n :=
  Nat.ofDigitChars_ten_toDigits

theorem whole_toDigits (n : Nat) : Whole (Nat.toDigits 10 n) where
  digits := ⟨Nat.toDigits_ne_nil,
    fun _ hd => Nat.isDigit_of_mem_toDigits (by decide) (by decide) hd⟩
  zero h := by
    rw [head?_toDigits h]
    rfl

/-- An integer is written as a number of JSON. -/
theorem number_toString (n : Int) : Number (toString n).toList (.int n) := by
  cases n with
  | ofNat n =>
    have htext : (toString (Int.ofNat n)).toList = Nat.toDigits 10 n := by
      show (toString n).toList = _
      rw [Nat.toString_eq_ofList_toDigits, String.toList_ofList]
    have h := Number.whole (whole_toDigits n)
    rwa [natOfDigits_toDigits, ← htext] at h
  | negSucc n =>
    have htext : (toString (Int.negSucc n)).toList = '-' :: Nat.toDigits 10 (n + 1) := by
      show ("-" ++ toString (n + 1)).toList = _
      simp only [Nat.toString_eq_ofList_toDigits, String.toList_append, String.toList_ofList]
      rfl
    have h := Number.negative (whole_toDigits (n + 1))
    rw [natOfDigits_toDigits, ← htext] at h
    exact h (Nat.succ_ne_zero n)

/-! ## Strings -/

theorem hexDigit_digitChar {n : Nat} (hn : n < 16) : HexDigit (Nat.digitChar n) n := by
  have hall : ∀ n < 16, "0123456789abcdef".toList[n]? = some (Nat.digitChar n) := by decide
  exact .inl (hall n hn)

theorem codeUnit_hexPair {n : Nat} (hn : n < 0x100) :
    CodeUnit ('0' :: '0' :: (hexPair n).toList) n := by
  have hzero : HexDigit '0' 0 := hexDigit_digitChar (by decide)
  have h := CodeUnit.mk hzero hzero (hexDigit_digitChar (n := n / 16) (by omega))
    (hexDigit_digitChar (n := n % 16) (by omega))
  rw [show ((0 * 16 + 0) * 16 + n / 16) * 16 + n % 16 = n by omega] at h
  rwa [hexPair, String.toList_ofList]

/-- However a character is escaped, it is a piece of a string for that character. -/
theorem piece_escaped (c : Char) : Piece (escaped c).toList c := by
  unfold escaped
  split
  · exact Piece.short (e := '"') (by decide)
  · exact Piece.short (e := '\\') (by decide)
  · exact Piece.short (e := 'b') (by decide)
  · exact Piece.short (e := 'f') (by decide)
  · exact Piece.short (e := 'n') (by decide)
  · exact Piece.short (e := 'r') (by decide)
  · exact Piece.short (e := 't') (by decide)
  · next hquote hslash _ _ _ _ _ =>
    split
    · next hc =>
      have h := Piece.unit (codeUnit_hexPair (n := c.toNat) (by omega)) (by
        unfold Nat.isValidChar
        omega)
      rw [Char.ofNat_toNat] at h
      rw [String.toList_append]
      exact h
    · next hc =>
      rw [String.toList_singleton]
      exact .plain (by omega) hquote hslash

theorem quoted_quote (s : String) : Quoted (quote s).toList s := by
  have hfold (cs : List Char) (acc : String) :
      ∃ text, (cs.foldl (fun acc c => acc ++ escaped c) acc).toList = acc.toList ++ text ∧
        Pieces text cs := by
    induction cs generalizing acc with
    | nil => exact ⟨[], by simp, .nil⟩
    | cons c cs ih =>
      obtain ⟨text, htext, h⟩ := ih (acc ++ escaped c)
      refine ⟨(escaped c).toList ++ text, ?_, .cons (piece_escaped c) h⟩
      rw [List.foldl_cons, htext, String.toList_append, List.append_assoc]
  obtain ⟨text, htext, h⟩ := hfold s.toList "\""
  have h := Quoted.mk h
  rw [String.ofList_toList] at h
  rw [quote, String.toList_push, String.foldl_eq_foldl_toList, htext]
  exact h

/-! ## Values -/

theorem Items.blank {cs : List Char} {js : List Json} : Items cs js → ∀ {b : List Char}, Blank b →
    Items (cs ++ b) js
  | .one (.mk (a := a) (v := v) ha hv hb), b, hb' => by
    rw [List.append_assoc, List.append_assoc]
    exact .one (.mk ha hv (hb.append hb'))
  | .cons h hs, b, hb' => by
    rw [List.append_assoc, List.cons_append]
    exact .cons h (hs.blank hb')

theorem Padded.blank {cs : List Char} {j : Json} {a b : List Char} (h : Padded cs j) (ha : Blank a)
    (hb : Blank b) : Padded (a ++ (cs ++ b)) j := by
  cases h with
  | mk ha' hv hb' =>
    rw [List.append_assoc, List.append_assoc, ← List.append_assoc]
    exact .mk (ha.append ha') hv (hb'.append hb)

/-- What comes behind the first item of a list, each item with its comma. -/
inductive ItemsBehind : List Char → List Json → Prop
  | nil : ItemsBehind [] []
  | cons {cs cs' : List Char} {j : Json} {js : List Json} (h : Padded cs j)
      (hs : ItemsBehind cs' js) : ItemsBehind (',' :: (cs ++ cs')) (j :: js)

/-- What comes behind the first member of an object, each member with its comma. -/
inductive MembersBehind : List Char → List (String × Json) → Prop
  | nil : MembersBehind [] []
  | cons {cs cs' : List Char} {m : String × Json} {ms : List (String × Json)} (h : Member cs m)
      (hs : MembersBehind cs' ms) : MembersBehind (',' :: (cs ++ cs')) (m :: ms)

theorem ItemsBehind.items {cs cs' : List Char} {j : Json} {js : List Json} (h : Padded cs j)
    (hs : ItemsBehind cs' js) : Items (cs ++ cs') (j :: js) := by
  induction hs generalizing cs j with
  | nil =>
    rw [List.append_nil]
    exact .one h
  | cons h' _ ih => exact .cons h (ih h')

theorem Members.blank {cs : List Char} {ms : List (String × Json)} : Members cs ms →
    ∀ {b : List Char}, Blank b → Members (cs ++ b) ms
  | .one (.mk (a := a) (n := n) (b := b) ha hname hb h), b', hb' => by
    have hmember := Member.mk ha hname hb (h.blank blank_nil hb')
    simp only [List.append_assoc, List.cons_append] at hmember ⊢
    exact .one hmember
  | .cons h hs, b, hb' => by
    rw [List.append_assoc, List.cons_append]
    exact .cons h (hs.blank hb')

theorem MembersBehind.members {cs cs' : List Char} {m : String × Json} {ms : List (String × Json)}
    (h : Member cs m) (hs : MembersBehind cs' ms) : Members (cs ++ cs') (m :: ms) := by
  induction hs generalizing cs m with
  | nil =>
    rw [List.append_nil]
    exact .one h
  | cons h' _ ih => exact .cons h (ih h')

/-- The second text is the first with something of the kind behind it. -/
def Adds (text text' : String) (P : List Char → Prop) : Prop :=
  ∃ cs, text'.toList = text.toList ++ cs ∧ P cs

/-- What is added to nothing is the text. -/
theorem Adds.isText {text : String} {j : Json} (h : Adds "" text (Denotes · j)) :
    IsText text j := by
  obtain ⟨cs, hcs, hdenotes⟩ := h
  have hpadded := hdenotes.padded
  rw [String.toList_empty, List.nil_append] at hcs
  rwa [← hcs] at hpadded

/-! ## On one line -/

theorem adds_compactItems {js : List Json}
    (h : ∀ j ∈ js, ∀ text, Adds text (j.compactOnto text) (Denotes · j)) (text : String) :
    Adds text (compactItems text js) (ItemsBehind · js) := by
  induction js generalizing text with
  | nil => exact ⟨[], (List.append_nil _).symm, .nil⟩
  | cons j js ih =>
    obtain ⟨hj, hjs⟩ := List.forall_mem_cons.1 h
    obtain ⟨v, hv, hdenotes⟩ := hj (text ++ ",")
    obtain ⟨cs, hcs, hbehind⟩ := ih hjs (j.compactOnto (text ++ ","))
    refine ⟨',' :: (v ++ cs), ?_, .cons hdenotes.padded hbehind⟩
    rw [compactItems, hcs, hv]
    simp

theorem adds_compactMembers {ms : List (String × Json)}
    (h : ∀ m ∈ ms, ∀ text, Adds text (m.2.compactOnto text) (Denotes · m.2)) (text : String) :
    Adds text (compactMembers text ms) (MembersBehind · ms) := by
  induction ms generalizing text with
  | nil => exact ⟨[], (List.append_nil _).symm, .nil⟩
  | cons m ms ih =>
    obtain ⟨name, j⟩ := m
    obtain ⟨hm, hms⟩ := List.forall_mem_cons.1 h
    obtain ⟨v, hv, hdenotes⟩ := hm (text ++ "," ++ quote name ++ ":")
    obtain ⟨cs, hcs, hbehind⟩ := ih hms (j.compactOnto (text ++ "," ++ quote name ++ ":"))
    have hmember := Member.mk blank_nil (quoted_quote name) blank_nil hdenotes.padded
    refine ⟨_, ?_, .cons hmember hbehind⟩
    rw [compactMembers, hcs, hv]
    simp

/-- The text without blanks is one of the value, by induction on the value. -/
theorem Proper.adds_compactOnto {j : Json} (h : Proper j) (text : String) :
    Adds text (j.compactOnto text) (Denotes · j) := by
  induction h generalizing text with
  | null => exact ⟨_, String.toList_append, .null⟩
  | @bool b =>
    cases b with
    | true => exact ⟨_, String.toList_append, .true⟩
    | false => exact ⟨_, String.toList_append, .false⟩
  | @int n => exact ⟨_, String.toList_append, .number (number_toString n)⟩
  | decimal h => exact ⟨_, String.toList_append, .number h⟩
  | @str s => exact ⟨_, String.toList_append, .str (quoted_quote s)⟩
  | @arr js _ ih =>
    cases js with
    | nil => exact ⟨_, String.toList_append, .emptyArr blank_nil⟩
    | cons j js =>
      obtain ⟨hj, hjs⟩ := List.forall_mem_cons.1 ih
      obtain ⟨v, hv, hdenotes⟩ := hj (text ++ "[")
      obtain ⟨cs, hcs, hbehind⟩ := adds_compactItems hjs (j.compactOnto (text ++ "["))
      refine ⟨_, ?_, .arr (hbehind.items hdenotes.padded)⟩
      rw [compactOnto, String.toList_append, hcs, hv]
      simp
  | @obj ms _ ih =>
    cases ms with
    | nil => exact ⟨_, String.toList_append, .emptyObj blank_nil⟩
    | cons m ms =>
      obtain ⟨name, j⟩ := m
      obtain ⟨hm, hms⟩ := List.forall_mem_cons.1 ih
      obtain ⟨v, hv, hdenotes⟩ := hm (text ++ "\x7b" ++ quote name ++ ":")
      obtain ⟨cs, hcs, hbehind⟩ :=
        adds_compactMembers hms (j.compactOnto (text ++ "\x7b" ++ quote name ++ ":"))
      have hmember := Member.mk blank_nil (quoted_quote name) blank_nil hdenotes.padded
      refine ⟨_, ?_, .obj (hbehind.members hmember)⟩
      rw [compactOnto, String.toList_append, hcs, hv]
      simp

theorem Proper.isText_compact {j : Json} (h : Proper j) : IsText j.compact j :=
  (h.adds_compactOnto "").isText

/-! ## On many lines -/

theorem adds_newline (text : String) (level : Nat) : Adds text (newline text level) Blank := by
  have hpush (n : Nat) (text : String) :
      ((List.replicate n ' ').foldl String.push text).toList =
        text.toList ++ List.replicate n ' ' := by
    induction n generalizing text with
    | zero => simp
    | succ n ih => simp [List.replicate_succ, ih]
  refine ⟨'\n' :: List.replicate (2 * level) ' ', ?_, ?_⟩
  · rw [newline, hpush]
    simp
  · refine List.forall_mem_cons.2 ⟨by simp, fun c hc => ?_⟩
    rw [List.eq_of_mem_replicate hc]
    simp

/-- An item on a line of its own. -/
theorem adds_prettyItem {j : Json} {level : Nat}
    (h : ∀ text, Adds text (j.prettyOnto text level) (Denotes · j)) (text : String) :
    Adds text (j.prettyOnto (newline text level) level) (Padded · j) := by
  obtain ⟨a, ha, hblank⟩ := adds_newline text level
  obtain ⟨v, hv, hdenotes⟩ := h (newline text level)
  have hpadded := hdenotes.padded.blank hblank blank_nil
  refine ⟨_, ?_, hpadded⟩
  rw [hv, ha, List.append_nil, List.append_assoc]

/-- A member on a line of its own, with a blank behind its colon. -/
theorem adds_prettyMember (name : String) {j : Json} {level : Nat}
    (h : ∀ text, Adds text (j.prettyOnto text level) (Denotes · j)) (text : String) :
    Adds text (j.prettyOnto (newline text level ++ quote name ++ ": ") level)
      (Member · (name, j)) := by
  obtain ⟨a, ha, hblank⟩ := adds_newline text level
  obtain ⟨v, hv, hdenotes⟩ := h (newline text level ++ quote name ++ ": ")
  have hspace : Blank [' '] := by simp [Blank]
  have hmember := Member.mk hblank (quoted_quote name) blank_nil
    (hdenotes.padded.blank hspace blank_nil)
  refine ⟨_, ?_, hmember⟩
  rw [hv]
  simp [ha]

theorem adds_prettyItems {js : List Json} {level : Nat}
    (h : ∀ j ∈ js, ∀ text, Adds text (j.prettyOnto text level) (Denotes · j)) (text : String) :
    Adds text (prettyItems text level js) (ItemsBehind · js) := by
  induction js generalizing text with
  | nil => exact ⟨[], (List.append_nil _).symm, .nil⟩
  | cons j js ih =>
    obtain ⟨hj, hjs⟩ := List.forall_mem_cons.1 h
    obtain ⟨v, hv, hpadded⟩ := adds_prettyItem hj (text ++ ",")
    obtain ⟨cs, hcs, hbehind⟩ := ih hjs (j.prettyOnto (newline (text ++ ",") level) level)
    refine ⟨_, ?_, .cons hpadded hbehind⟩
    rw [prettyItems, hcs, hv]
    simp

theorem adds_prettyMembers {ms : List (String × Json)} {level : Nat}
    (h : ∀ m ∈ ms, ∀ text, Adds text (m.2.prettyOnto text level) (Denotes · m.2)) (text : String) :
    Adds text (prettyMembers text level ms) (MembersBehind · ms) := by
  induction ms generalizing text with
  | nil => exact ⟨[], (List.append_nil _).symm, .nil⟩
  | cons m ms ih =>
    obtain ⟨name, j⟩ := m
    obtain ⟨hm, hms⟩ := List.forall_mem_cons.1 h
    obtain ⟨v, hv, hmember⟩ := adds_prettyMember name hm (text ++ ",")
    obtain ⟨cs, hcs, hbehind⟩ :=
      ih hms (j.prettyOnto (newline (text ++ ",") level ++ quote name ++ ": ") level)
    refine ⟨_, ?_, .cons hmember hbehind⟩
    rw [prettyMembers, hcs, hv]
    simp

/-- The text with a line for each item is one of the value, whatever the level. -/
theorem Proper.adds_prettyOnto {j : Json} (h : Proper j) (text : String) (level : Nat) :
    Adds text (j.prettyOnto text level) (Denotes · j) := by
  induction h generalizing text level with
  | null => exact ⟨_, String.toList_append, .null⟩
  | @bool b =>
    cases b with
    | true => exact ⟨_, String.toList_append, .true⟩
    | false => exact ⟨_, String.toList_append, .false⟩
  | @int n => exact ⟨_, String.toList_append, .number (number_toString n)⟩
  | decimal h => exact ⟨_, String.toList_append, .number h⟩
  | @str s => exact ⟨_, String.toList_append, .str (quoted_quote s)⟩
  | @arr js _ ih =>
    cases js with
    | nil => exact ⟨_, String.toList_append, .emptyArr blank_nil⟩
    | cons j js =>
      obtain ⟨hj, hjs⟩ := List.forall_mem_cons.1 ih
      obtain ⟨v, hv, hpadded⟩ := adds_prettyItem (hj · (level + 1)) (text ++ "[")
      obtain ⟨cs, hcs, hbehind⟩ := adds_prettyItems (fun j hj text => hjs j hj text (level + 1))
        (j.prettyOnto (newline (text ++ "[") (level + 1)) (level + 1))
      obtain ⟨b, hb, hblank⟩ := adds_newline (prettyItems _ (level + 1) js) level
      refine ⟨_, ?_, .arr ((hbehind.items hpadded).blank hblank)⟩
      rw [prettyOnto, String.toList_append, hb, hcs, hv]
      simp
  | @obj ms _ ih =>
    cases ms with
    | nil => exact ⟨_, String.toList_append, .emptyObj blank_nil⟩
    | cons m ms =>
      obtain ⟨name, j⟩ := m
      obtain ⟨hm, hms⟩ := List.forall_mem_cons.1 ih
      obtain ⟨v, hv, hmember⟩ := adds_prettyMember name (hm · (level + 1)) (text ++ "\x7b")
      obtain ⟨cs, hcs, hbehind⟩ := adds_prettyMembers (fun m hm text => hms m hm text (level + 1))
        (j.prettyOnto (newline (text ++ "\x7b") (level + 1) ++ quote name ++ ": ") (level + 1))
      obtain ⟨b, hb, hblank⟩ := adds_newline (prettyMembers _ (level + 1) ms) level
      refine ⟨_, ?_, .obj ((hbehind.members hmember).blank hblank)⟩
      rw [prettyOnto, String.toList_append, hb, hcs, hv]
      simp

theorem Proper.isText_pretty {j : Json} (h : Proper j) : IsText j.pretty j :=
  (h.adds_prettyOnto "" 0).isText

/-- A text with a line end behind it. -/
theorem IsText.newline {text : String} {j : Json} (h : IsText text j) : IsText (text ++ "\n") j := by
  have hblank : Blank ['\n'] := by simp [Blank]
  have h := Padded.blank h blank_nil hblank
  rw [IsText, String.toList_append]
  exact h

end MonkeyLang.Json.Grammar
