import MonkeyLang.Proofs.Data.Keys
import MonkeyLang.Proofs.Running.Sequence

/-!
# Texts by their bytes

`len` and `char_at` know a text by the bytes that it has in UTF-8.  The bytes of two texts one behind
the other are those of the first and those of the second, so both functions go with `+`.  A byte is
a character by itself, or one of several that are none by themselves (`ofNat_of_mem_utf8EncodeChar`)
and given as U+FFFD.

    charAt (a + b) i = charAt a i or charAt b (i - len a)                          (charAt_append)
    charsAt s = s ↔ all characters of s are ASCII, and indices come to all of them
                                                                                   (charsAt_eq_iff)

If a text has characters of several bytes, then it has fewer characters than bytes, and so it is not
put together from the texts of its bytes, be it of U+FFFD alone.  Indices come to all bytes of a text
that fits in a memory.
-/

namespace MonkeyLang

open String (utf8EncodeChar)

variable {κ : Type}

/-! ## Bytes and characters -/

section

variable {s : String} {c : Char} {cs : List Char} {b : UInt8} {k : Nat}

theorem bytes_append (a b : String) : bytes (a ++ b) = bytes a ++ bytes b := by
  rw [bytes_eq_flatMap, bytes_eq_flatMap, bytes_eq_flatMap, String.toList_append,
    List.flatMap_append]

theorem length_bytes (s : String) : (bytes s).length = s.utf8ByteSize := by
  rw [bytes, Array.length_toList]
  exact String.size_toByteArray

theorem utf8EncodeChar_of_lt (hc : c.toNat < 0x80) : utf8EncodeChar c = [UInt8.ofNat c.toNat] :=
  if_pos (Nat.le_of_lt_succ hc)

theorem toNat_ofNat_of_ascii (hc : c.toNat < 0x80) : (UInt8.ofNat c.toNat).toNat = c.toNat :=
  UInt8.toNat_ofNat_of_lt (Nat.lt_trans hc (by decide))

theorem le_toNat_ofNat {n : Nat} (hle : 0x80 ≤ n) (hlt : n < 256) :
    0x80 ≤ (UInt8.ofNat n).toNat := by
  rwa [UInt8.toNat_ofNat', Nat.mod_eq_of_lt hlt]

/-- The bytes of a character that has several are none by themselves. -/
theorem le_toNat_of_mem_utf8EncodeChar (hc : 0x80 ≤ c.toNat) :
    ∀ b ∈ utf8EncodeChar c, 0x80 ≤ b.toNat := by
  have hle : 0x80 ≤ c.val.toNat := hc
  have hlt := codePoint_lt c
  simp only [utf8EncodeChar, if_neg (show ¬ c.val.toNat ≤ 0x7f by omega)]
  generalize c.val.toNat = n at hle hlt
  -- by the number of bytes: the first is above all that follow, and these are 0x80 at least
  split
  · refine List.forall_mem_cons.2 ⟨le_toNat_ofNat (by omega) (by omega), ?_⟩
    exact List.forall_mem_singleton.2 (le_toNat_ofNat (by omega) (by omega))
  · split
    · refine List.forall_mem_cons.2 ⟨le_toNat_ofNat (by omega) (by omega), ?_⟩
      refine List.forall_mem_cons.2 ⟨le_toNat_ofNat (by omega) (by omega), ?_⟩
      exact List.forall_mem_singleton.2 (le_toNat_ofNat (by omega) (by omega))
    · refine List.forall_mem_cons.2 ⟨le_toNat_ofNat (by omega) (by omega), ?_⟩
      refine List.forall_mem_cons.2 ⟨le_toNat_ofNat (by omega) (by omega), ?_⟩
      refine List.forall_mem_cons.2 ⟨le_toNat_ofNat (by omega) (by omega), ?_⟩
      exact List.forall_mem_singleton.2 (le_toNat_ofNat (by omega) (by omega))

/-- A byte that is a character by itself is the whole of the one that it stands in. -/
theorem ofNat_of_mem_utf8EncodeChar (hb : b ∈ utf8EncodeChar c) (hlt : b.toNat < 0x80) :
    Char.ofNat b.toNat = c := by
  by_cases hc : c.toNat < 0x80
  · rw [utf8EncodeChar_of_lt hc] at hb
    rw [List.mem_singleton.1 hb, toNat_ofNat_of_ascii hc, Char.ofNat_toNat]
  · exact absurd hlt (Nat.not_lt.2 (le_toNat_of_mem_utf8EncodeChar (Nat.not_lt.1 hc) b hb))

/-- A byte of some characters lies in one of them. -/
theorem exists_char_of_getElem? (h : (cs.flatMap utf8EncodeChar)[k]? = some b) :
    ∃ ps c qs, cs = ps ++ c :: qs ∧ (ps.flatMap utf8EncodeChar).length ≤ k ∧
      (utf8EncodeChar c)[k - (ps.flatMap utf8EncodeChar).length]? = some b := by
  induction cs generalizing k with
  | nil => cases h
  | cons c cs ih =>
    rw [List.flatMap_cons, List.getElem?_append] at h
    split at h
    · exact ⟨[], c, cs, rfl, Nat.zero_le k, h⟩
    · next hle =>
      obtain ⟨ps, d, qs, rfl, hps, hb⟩ := ih h
      refine ⟨c :: ps, d, qs, rfl, ?_, ?_⟩
      · rw [List.flatMap_cons, List.length_append]
        omega
      · rwa [List.flatMap_cons, List.length_append, Nat.add_comm, ← Nat.sub_sub, Nat.sub_right_comm]

/-- Every byte lies in a character of the text. -/
theorem exists_char_of_getElem?_bytes (h : (bytes s)[k]? = some b) :
    ∃ (p q : String) (c : Char), s = p ++ .singleton c ++ q ∧ p.utf8ByteSize ≤ k ∧
      k < p.utf8ByteSize + c.utf8Size ∧ b ∈ utf8EncodeChar c := by
  rw [bytes_eq_flatMap] at h
  obtain ⟨ps, c, qs, hs, hle, hb⟩ := exists_char_of_getElem? h
  have hsize : (ps.flatMap utf8EncodeChar).length = (String.ofList ps).utf8ByteSize := by
    rw [← length_bytes, bytes_eq_flatMap, String.toList_ofList]
  have hlt := (List.getElem?_eq_some_iff.1 hb).1
  rw [String.length_utf8EncodeChar] at hlt
  refine ⟨.ofList ps, .ofList qs, c, ?_, by omega, by omega, List.mem_of_getElem? hb⟩
  rw [String.singleton_eq_ofList, ← String.ofList_append, ← String.ofList_append,
    List.append_assoc, List.singleton_append, ← hs, String.ofList_toList]

theorem le_length_flatMap_utf8EncodeChar (cs : List Char) :
    cs.length ≤ (cs.flatMap utf8EncodeChar).length := by
  induction cs with
  | nil => exact Nat.le_refl 0
  | cons c cs ih =>
    have hpos := c.utf8Size_pos
    rw [List.flatMap_cons, List.length_append, String.length_utf8EncodeChar, List.length_cons]
    omega

/-- With no more bytes than characters, each character is a byte. -/
theorem utf8Size_eq_one_of_length_eq (h : (cs.flatMap utf8EncodeChar).length = cs.length) :
    ∀ c ∈ cs, c.utf8Size = 1 := by
  induction cs with
  | nil => exact List.forall_mem_nil _
  | cons c cs ih =>
    have hpos := c.utf8Size_pos
    have hle := le_length_flatMap_utf8EncodeChar cs
    rw [List.flatMap_cons, List.length_append, String.length_utf8EncodeChar, List.length_cons] at h
    exact List.forall_mem_cons.2 ⟨by omega, ih (by omega)⟩

theorem toNat_lt_iff_utf8Size_eq_one : c.toNat < 0x80 ↔ c.utf8Size = 1 := by
  rw [Char.utf8Size_eq_one_iff, UInt32.le_iff_toNat_le]
  exact Nat.lt_succ_iff

end

namespace Builtin

section

variable {s : String} {c : Char} {cs : List Char} {b : UInt8}

theorem toList_byteText (b : UInt8) :
    (byteText b).toList = [if b.toNat < 0x80 then Char.ofNat b.toNat else '\ufffd'] :=
  String.toList_singleton _

/-- The text of a byte is its character, or U+FFFD where the byte is only a part of one. -/
theorem byteText_eq (hb : b ∈ utf8EncodeChar c) :
    byteText b = .singleton (if b.toNat < 0x80 then c else '\ufffd') := by
  unfold byteText
  split
  · next hlt => rw [ofNat_of_mem_utf8EncodeChar hb hlt]
  · rfl

/-- Characters of one byte each are given back as they are. -/
theorem flatMap_byteText_of_ascii (h : ∀ c ∈ cs, c.toNat < 0x80) :
    (cs.flatMap utf8EncodeChar).flatMap (fun b => (byteText b).toList) = cs := by
  induction cs with
  | nil => rfl
  | cons c cs ih =>
    obtain ⟨hc, hcs⟩ := List.forall_mem_cons.1 h
    rw [List.flatMap_cons, List.flatMap_append, ih hcs, utf8EncodeChar_of_lt hc,
      List.flatMap_singleton, toList_byteText, toNat_ofNat_of_ascii hc, if_pos hc, Char.ofNat_toNat]
    rfl

theorem length_flatMap_byteText (bs : List UInt8) :
    (bs.flatMap fun b => (byteText b).toList).length = bs.length := by
  induction bs with
  | nil => rfl
  | cons b bs ih =>
    rw [List.flatMap_cons, List.length_append, ih, toList_byteText, List.length_cons]
    exact Nat.add_comm _ _

/-- A text is put together from its bytes exactly if all its characters are ASCII. -/
theorem join_byteText_eq_iff :
    String.join ((bytes s).map byteText) = s ↔ ∀ c ∈ s.toList, c.toNat < 0x80 := by
  rw [← String.toList_inj, String.toList_join, List.flatMap_map, bytes_eq_flatMap]
  constructor
  · intro h c hc
    have hlength := congrArg List.length h
    rw [length_flatMap_byteText] at hlength
    exact toNat_lt_iff_utf8Size_eq_one.2 (utf8Size_eq_one_of_length_eq hlength c hc)
  · exact flatMap_byteText_of_ascii

/-- No byte is at an index below 0. -/
theorem byteAt?_eq (s : String) (i : Int) :
    byteAt? s i = if 0 ≤ i then (bytes s)[i.toNat]? else none := by
  unfold byteAt?
  split
  · next h =>
    have hlt : i.toNat < (bytes s).length := by
      rw [length_bytes]
      exact h.2
    rw [if_pos h.1, List.getElem?_eq_getElem hlt]
    rfl
  · next h =>
    split
    · next hi =>
      refine (List.getElem?_eq_none ?_).symm
      rw [length_bytes]
      omega
    · rfl

/-- Of two texts the bytes of the second stand behind those of the first. -/
theorem byteAt?_append (a b : String) (i : Int) :
    byteAt? (a ++ b) i =
      if 0 ≤ i ∧ i < a.utf8ByteSize then byteAt? a i
      else if a.utf8ByteSize ≤ i ∧ i < a.utf8ByteSize + b.utf8ByteSize then
        byteAt? b (i - a.utf8ByteSize)
      else none := by
  rw [byteAt?_eq, byteAt?_eq, byteAt?_eq, bytes_append]
  have ha := length_bytes a
  have hb := length_bytes b
  by_cases hi : 0 ≤ i
  · rw [if_pos hi]
    split
    · next h => exact List.getElem?_append_left (by omega)
    · next h =>
      have hle : (bytes a).length ≤ i.toNat := by omega
      have hsub : (i - a.utf8ByteSize).toNat = i.toNat - (bytes a).length := by omega
      rw [List.getElem?_append_right hle, ← hsub]
      split
      · next h' => rw [if_pos (by omega)]
      · next h' => exact List.getElem?_eq_none (by omega)
  · rw [if_neg hi, if_neg (by omega), if_neg (by omega)]

end

/-! ## Calls -/

section

variable [Console κ] {s : String} {i : Int64}

/-- `char_at` gives the text of the byte, or says that the index is out of bounds. -/
theorem call_charAt (s : String) (i : Int64) :
    (charAt.call [.str s, .int i] : Run κ Value) =
      (byteAt? s i.toInt).elim (throw .outOfBounds) fun b => pure (.str (byteText b)) := by
  show callCharAt (.str s) (.int i) = _
  rw [callCharAt]
  cases byteAt? s i.toInt <;> rfl

/-- The length of two texts together is the sum of theirs. -/
theorem len_append (a b : String) :
    (BinaryOp.add.apply (.str a) (.str b) >>= (len.call [·]) : Run κ Value) =
      len.call [.str a] >>= fun m => len.call [.str b] >>= fun n => BinaryOp.add.apply m n := by
  show (pure (.int (.ofNat (a ++ b).utf8ByteSize)) : Run κ Value) =
    pure (.int (.ofNat a.utf8ByteSize + .ofNat b.utf8ByteSize))
  rw [String.utf8ByteSize_append, Int64.ofNat_add]

/-- An index finds the first text's bytes, then the second's by what is left of the index. -/
theorem charAt_append (a b : String) (i : Int64) :
    (BinaryOp.add.apply (.str a) (.str b) >>= (charAt.call [·, .int i]) : Run κ Value) =
      if 0 ≤ i.toInt ∧ i.toInt < a.utf8ByteSize then charAt.call [.str a, .int i]
      else if a.utf8ByteSize ≤ i.toInt ∧ i.toInt < a.utf8ByteSize + b.utf8ByteSize then
        len.call [.str a] >>= fun n => BinaryOp.sub.apply (.int i) n >>= fun j =>
          charAt.call [.str b, j]
      else throw .outOfBounds := by
  have hjoined : (BinaryOp.add.apply (.str a) (.str b) >>= (charAt.call [·, .int i]) :
      Run κ Value) = charAt.call [.str (a ++ b), .int i] := rfl
  have hlater : (len.call [.str a] >>= fun n => BinaryOp.sub.apply (.int i) n >>= fun j =>
      charAt.call [.str b, j] : Run κ Value) =
        charAt.call [.str b, .int (i - .ofNat a.utf8ByteSize)] := rfl
  rw [hjoined, hlater, call_charAt, call_charAt, call_charAt, byteAt?_append]
  split
  · rfl
  · split
    · next h =>
      -- an index that comes to the second text is no less than the size of the first
      have hsize : (Int64.ofNat a.utf8ByteSize).toInt = a.utf8ByteSize :=
        Int64.toInt_ofNat_of_lt (by have := i.toInt_lt; omega)
      rw [Int64.toInt_sub_of_le, hsize]
      · rw [Int64.le_iff_toInt_le, hsize]
        exact Int.natCast_nonneg _
      · rw [Int64.le_iff_toInt_le, hsize]
        exact h.1
    · rfl

/-- A byte that is a character by itself is given as that character. -/
theorem charAt_of_lt {s : String} {i : Int64} (h : 0 ≤ i.toInt)
    (hlt : i.toInt < s.utf8ByteSize) :
    ∃ (p q : String) (c : Char) (b : UInt8), s = p ++ .singleton c ++ q ∧
      p.utf8ByteSize ≤ i.toInt ∧ i.toInt < p.utf8ByteSize + c.utf8Size ∧
      (bytes s)[i.toInt.toNat]? = some b ∧
      (charAt.call [.str s, .int i] : Run κ Value) =
        pure (.str (.singleton (if b.toNat < 0x80 then c else '\ufffd'))) := by
  have hlength := length_bytes s
  have hk : i.toInt.toNat < (bytes s).length := by omega
  have hbyte := List.getElem?_eq_getElem hk
  obtain ⟨p, q, c, hs, hle, hlt, hb⟩ := exists_char_of_getElem?_bytes hbyte
  refine ⟨p, q, c, _, hs, by omega, by omega, hbyte, ?_⟩
  rw [call_charAt, byteAt?_eq, if_pos h, hbyte, ← byteText_eq hb]
  rfl

end

/-! ## One byte after the other -/

section

variable [Console κ] {s : String} {k n : Nat}

/-- Puts what `char_at` gives behind a text. -/
def appendCharAt (s : String) (text : Value) (k : Nat) : Run κ Value :=
  charAt.call [.str s, .int (.ofNat k)] >>= (BinaryOp.add.apply text ·)

/-- The texts of the bytes, put together from the first byte to the last. -/
def charsAt (s : String) : Run κ Value :=
  (List.range s.utf8ByteSize).foldlM (appendCharAt s) (.str "")

theorem appendCharAt_of_lt {b : UInt8} (hb : (bytes s)[k]? = some b) (hk : k < 2 ^ 63)
    (text : String) :
    (appendCharAt s (.str text) k : Run κ Value) = pure (.str (text ++ byteText b)) := by
  have hbyte : byteAt? s (Int64.ofNat k).toInt = some b := by
    rw [Int64.toInt_ofNat_of_lt hk, byteAt?_eq, if_pos (Int.natCast_nonneg k)]
    exact hb
  rw [appendCharAt, call_charAt, hbyte]
  rfl

theorem foldlM_appendCharAt (hlt : n ≤ (bytes s).length) (hn : n ≤ 2 ^ 63) :
    ((List.range n).foldlM (appendCharAt s) (.str "") : Run κ Value) =
      pure (.str (String.join (((bytes s).take n).map byteText))) := by
  induction n with
  | zero => rfl
  | succ n ih =>
    have hbyte := List.getElem?_eq_getElem hlt
    rw [List.range_succ, List.foldlM_append, ih (by omega) (by omega), pure_bind,
      List.foldlM_cons, appendCharAt_of_lt hbyte (by omega), pure_bind, List.foldlM_nil,
      List.take_add_one, hbyte, List.map_append, String.join_append, Option.toList_some,
      List.map_singleton, String.join_cons, String.join_nil, String.append_empty]

/-- There is no text if there is a byte that no index comes to. -/
theorem foldlM_appendCharAt_of_error {ks : List Nat} (hk : k ∈ ks)
    (hnone : byteAt? s (Int64.ofNat k).toInt = none) (text : Value) (m : Machine κ) :
    ∃ e m', (ks.foldlM (appendCharAt s) text : Run κ Value) m = .error e m' := by
  induction ks generalizing text m with
  | nil => cases hk
  | cons j ks ih =>
    rw [List.foldlM_cons]
    cases hj : (appendCharAt s text j : Run κ Value) m with
    | error e m' => exact ⟨e, m', Run.bind_of_error hj⟩
    | ok v m' =>
      rw [Run.bind_of_ok hj]
      rcases List.mem_cons.1 hk with rfl | hk
      · rw [appendCharAt, call_charAt, hnone] at hj
        cases hj
      · exact ih hk v m'

/-- The texts of the bytes are the text again for ASCII alone, as far as an index reaches. -/
theorem charsAt_eq_iff (s : String) (m : Machine κ) :
    (charsAt s).outcome m = (.ok (.str s), m) ↔
      (∀ c ∈ s.toList, c.toNat < 0x80) ∧ s.utf8ByteSize ≤ 2 ^ 63 := by
  by_cases hsize : s.utf8ByteSize ≤ 2 ^ 63
  · have hchars : (charsAt s : Run κ Value) = pure (.str (String.join ((bytes s).map byteText))) := by
      rw [charsAt, foldlM_appendCharAt (Nat.le_of_eq (length_bytes s).symm) hsize, ← length_bytes,
        List.take_length]
    rw [hchars, and_iff_left hsize, ← join_byteText_eq_iff]
    constructor
    · intro h
      exact Value.str.inj (Except.ok.inj (Prod.mk.inj h).1)
    · intro h
      rw [h]
      rfl
  · have hlast : 2 ^ 63 ∈ List.range s.utf8ByteSize := List.mem_range.2 (Nat.lt_of_not_le hsize)
    have hnone : byteAt? s (Int64.ofNat (2 ^ 63)).toInt = none := by
      rw [byteAt?_eq, if_neg (by decide)]
    obtain ⟨e, m', herror⟩ := foldlM_appendCharAt_of_error hlast hnone (.str "") m
    rw [Run.outcome, charsAt, herror]
    refine iff_of_false (fun h => ?_) fun h => hsize h.2
    cases (Prod.mk.inj h).1

end

/-! ## Top theorem -/

/-- The bytes of a text are those of its parts, and the functions on texts say so: the sizes add up,
and an index that is none of the first part is one of the second, that much less.  A byte below 0x80
is the character that stands there, and the bytes are the text again if they all are (and indices
come to all of them, of which there are `2 ^ 63`). -/
theorem texts_are_bytes [Console κ] :
    (∀ a b : String,
      (len.call [.str a] : Run κ Value) = pure (.int (.ofNat a.utf8ByteSize)) ∧
      (BinaryOp.add.apply (.str a) (.str b) >>= (len.call [·]) : Run κ Value) =
        len.call [.str a] >>= fun m => len.call [.str b] >>= fun n => BinaryOp.add.apply m n) ∧
    (∀ (a b : String) (i : Int64),
      (BinaryOp.add.apply (.str a) (.str b) >>= (charAt.call [·, .int i]) : Run κ Value) =
        if 0 ≤ i.toInt ∧ i.toInt < a.utf8ByteSize then charAt.call [.str a, .int i]
        else if a.utf8ByteSize ≤ i.toInt ∧ i.toInt < a.utf8ByteSize + b.utf8ByteSize then
          len.call [.str a] >>= fun n => BinaryOp.sub.apply (.int i) n >>= fun j =>
            charAt.call [.str b, j]
        else throw .outOfBounds) ∧
    Fault.outOfBounds.message = "Index out of bounds" ∧
    (∀ (s : String) (i : Int64), 0 ≤ i.toInt → i.toInt < s.utf8ByteSize →
      ∃ (p q : String) (c : Char) (b : UInt8), s = p ++ .singleton c ++ q ∧
        p.utf8ByteSize ≤ i.toInt ∧ i.toInt < p.utf8ByteSize + c.utf8Size ∧
        (bytes s)[i.toInt.toNat]? = some b ∧
        (charAt.call [.str s, .int i] : Run κ Value) =
          pure (.str (.singleton (if b.toNat < 0x80 then c else '\ufffd')))) ∧
    ∀ (s : String) (m : Machine κ), (charsAt s).outcome m = (.ok (.str s), m) ↔
      (∀ c ∈ s.toList, c.toNat < 0x80) ∧ s.utf8ByteSize ≤ 2 ^ 63 :=
  ⟨fun a b => ⟨rfl, len_append a b⟩, charAt_append, rfl, fun _ _ => charAt_of_lt, charsAt_eq_iff⟩

/-- A letter behind a text of U+FFFD, which has three bytes and is not put together from them. -/
theorem texts_are_bytes_of_replacement :
    let s := "\ufffda"
    let i : Int64 := 3
    let m : Machine Transcript := .start {}
    (0 ≤ i.toInt ∧ i.toInt < s.utf8ByteSize ∧
      ∃ (p q : String) (c : Char) (b : UInt8), s = p ++ .singleton c ++ q ∧
        p.utf8ByteSize ≤ i.toInt ∧ i.toInt < p.utf8ByteSize + c.utf8Size ∧
        (bytes s)[i.toInt.toNat]? = some b ∧
        (charAt.call [.str s, .int i] : Run Transcript Value) =
          pure (.str (.singleton (if b.toNat < 0x80 then c else '\ufffd')))) ∧
    (BinaryOp.add.apply (.str "é") (.str s) >>= (charAt.call [·, .int 5]) : Run Transcript Value) =
      pure (.str "a") ∧
    (charsAt s).outcome m ≠ (.ok (.str s), m) := by
  intro s i m
  obtain ⟨-, happend, -, hcharacter, hchars⟩ := texts_are_bytes (κ := Transcript)
  have hleast : 0 ≤ i.toInt := by decide
  have hmost : i.toInt < s.utf8ByteSize := by decide +kernel
  refine ⟨⟨hleast, hmost, hcharacter s i hleast hmost⟩, ?_, ?_⟩
  · have hfirst : ¬ (0 ≤ (5 : Int64).toInt ∧ (5 : Int64).toInt < "é".utf8ByteSize) := by
      decide +kernel
    have hsecond : "é".utf8ByteSize ≤ (5 : Int64).toInt ∧
        (5 : Int64).toInt < "é".utf8ByteSize + s.utf8ByteSize := by
      decide +kernel
    have hbyte : byteAt? s (5 - Int64.ofNat "é".utf8ByteSize).toInt = some 0x61 := by
      decide +kernel
    have htext : byteText 0x61 = "a" := by decide +kernel
    rw [happend, if_neg hfirst, if_pos hsecond, ← htext]
    show charAt.call [.str s, .int (5 - .ofNat "é".utf8ByteSize)] = _
    rw [call_charAt, hbyte]
    rfl
  · rw [Ne, hchars]
    intro h
    have hmem : '\ufffd' ∈ s.toList := by decide +kernel
    exact absurd (h.1 _ hmem) (by decide)

end Builtin

end MonkeyLang
