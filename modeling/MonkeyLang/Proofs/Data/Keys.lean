import Mathlib.Order.RelClasses
import MonkeyLang.Value.Key

/-!
# The order of keys

Keys are compared by kind, integers by value and texts by their code points.  Said of the bytes that
the texts have in UTF-8, it is the same order: of two characters the one with the greater code point
has the greater bytes, at the first byte that differs, so what stands behind them is never asked
(`encode_append_lt`).

    compare k l = .lt ↔ k.Below l                                  (Key.compare_eq_lt_iff)
    v.key? = some k → w.key? = some l → (compare k l = .eq ↔ v == w)     (Key.compare_eq_iff_beq)
-/

namespace MonkeyLang

open String (utf8EncodeChar)

/-! ## Bytes of texts -/

/-- The bytes of a text in UTF-8. -/
def bytes (s : String) : List UInt8 := s.toUTF8.data.toList

/-- Each character has its own bytes. -/
theorem bytes_eq_flatMap (s : String) : bytes s = s.toList.flatMap utf8EncodeChar := by
  rw [bytes, String.toUTF8_eq_toByteArray, ← String.ofList_toList (s := s),
    String.toByteArray_ofList, String.toList_ofList]
  exact List.toList_data_toByteArray

section

variable {m n : Nat} {xs ys : List UInt8}

/-- The first bytes are in order, and where they are the same those behind them are. -/
theorem cons_lt_cons (hm : m < 256) (hn : n < 256) (hle : m ≤ n) (h : m = n → xs < ys) :
    UInt8.ofNat m :: xs < UInt8.ofNat n :: ys := by
  rcases Nat.lt_or_eq_of_le hle with hlt | rfl
  · refine .rel (UInt8.lt_iff_toNat_lt.2 ?_)
    rwa [UInt8.toNat_ofNat', UInt8.toNat_ofNat', Nat.mod_eq_of_lt hm, Nat.mod_eq_of_lt hn]
  · exact .cons (h rfl)

theorem cons_lt_cons_of_lt (hm : m < 256) (hn : n < 256) (hlt : m < n) :
    UInt8.ofNat m :: xs < UInt8.ofNat n :: ys :=
  cons_lt_cons hm hn (Nat.le_of_lt hlt) fun h => absurd h (Nat.ne_of_lt hlt)

end

theorem codePoint_lt (c : Char) : c.val.toNat < 0x110000 := by
  have h : c.val.toNat < 0xd800 ∨ 0xdfff < c.val.toNat ∧ c.val.toNat < 0x110000 := c.valid
  omega

/-- The bytes of two different characters differ before either ends, in the order of the code
points. -/
theorem encode_append_lt {c d : Char} (h : c < d) (xs ys : List UInt8) :
    utf8EncodeChar c ++ xs < utf8EncodeChar d ++ ys := by
  have hlt : c.val.toNat < d.val.toNat := h
  have hd := codePoint_lt d
  simp only [utf8EncodeChar]
  generalize c.val.toNat = m at hlt
  generalize d.val.toNat = n at hlt hd
  -- by the number of bytes of the first, and then of the second, which has no fewer
  split
  · split
    · exact cons_lt_cons_of_lt (by omega) (by omega) hlt
    · split
      · exact cons_lt_cons_of_lt (by omega) (by omega) (by omega)
      · split <;> exact cons_lt_cons_of_lt (by omega) (by omega) (by omega)
  rw [if_neg (show ¬ n ≤ 0x7f by omega)]
  split
  · split
    · refine cons_lt_cons (by omega) (by omega) (by omega) fun h₁ => ?_
      exact cons_lt_cons_of_lt (by omega) (by omega) (by omega)
    · split <;> exact cons_lt_cons_of_lt (by omega) (by omega) (by omega)
  rw [if_neg (show ¬ n ≤ 0x7ff by omega)]
  split
  · split
    · refine cons_lt_cons (by omega) (by omega) (by omega) fun h₁ => ?_
      refine cons_lt_cons (by omega) (by omega) (by omega) fun h₂ => ?_
      exact cons_lt_cons_of_lt (by omega) (by omega) (by omega)
    · exact cons_lt_cons_of_lt (by omega) (by omega) (by omega)
  rw [if_neg (show ¬ n ≤ 0xffff by omega)]
  refine cons_lt_cons (by omega) (by omega) (by omega) fun h₁ => ?_
  refine cons_lt_cons (by omega) (by omega) (by omega) fun h₂ => ?_
  refine cons_lt_cons (by omega) (by omega) (by omega) fun h₃ => ?_
  exact cons_lt_cons_of_lt (by omega) (by omega) (by omega)

/-- Texts in order have bytes in order. -/
theorem encodeAll_lt {cs ds : List Char} (h : cs < ds) :
    cs.flatMap utf8EncodeChar < ds.flatMap utf8EncodeChar := by
  induction h with
  | nil =>
    obtain ⟨b, bs, hb⟩ := List.exists_cons_of_ne_nil String.utf8EncodeChar_ne_nil
    rw [List.flatMap_nil, List.flatMap_cons, hb]
    exact .nil
  | rel h => exact encode_append_lt h _ _
  | cons _ ih => exact List.append_left_lt ih

/-- Code points and bytes order texts alike. -/
theorem bytes_lt_iff {s t : String} : bytes s < bytes t ↔ s < t := by
  rw [bytes_eq_flatMap, bytes_eq_flatMap]
  refine ⟨fun h => Decidable.byContradiction fun hst => ?_, fun h => encodeAll_lt h⟩
  by_cases hts : t < s
  · exact List.lt_asymm (encodeAll_lt hts) h
  · rw [String.le_antisymm hts hst] at h
    exact List.lt_irrefl _ h

namespace Key

/-! ## The order -/

/-- Integers by value before texts by their bytes before `false` before `true`. -/
inductive Below : Key → Key → Prop
  | int {a b : Int64} (h : a.toInt < b.toInt) : Below (int a) (int b)
  | int_str (a : Int64) (s : String) : Below (int a) (str s)
  | int_bool (a : Int64) (b : Bool) : Below (int a) (bool b)
  | str {s t : String} (h : bytes s < bytes t) : Below (str s) (str t)
  | str_bool (s : String) (b : Bool) : Below (str s) (bool b)
  | bool : Below (bool false) (bool true)

variable {j k l : Key}

/-- The comparison that tables use is the order. -/
theorem compare_eq_lt_iff : compare k l = .lt ↔ k.Below l := by
  constructor
  · intro h
    cases k with
    | int a =>
      cases l with
      | int b =>
        have hlt : a < b := Std.compare_eq_lt.1 h
        exact .int (Int64.lt_iff_toInt_lt.1 hlt)
      | str s => exact .int_str a s
      | bool b => exact .int_bool a b
    | str s =>
      cases l with
      | int b => cases h
      | str t =>
        have hlt : s < t := compareOfLessAndEq_eq_lt.1 h
        exact .str (bytes_lt_iff.2 hlt)
      | bool b => exact .str_bool s b
    | bool a =>
      cases l with
      | int b => cases h
      | str t => cases h
      | bool b =>
        cases a <;> cases b <;> cases h
        exact .bool
  · intro h
    cases h with
    | @int a b h =>
      have hlt : compare a b = .lt := Std.compare_eq_lt.2 (Int64.lt_iff_toInt_lt.2 h)
      exact hlt
    | @str s t h =>
      have hlt : compare s t = .lt := compareOfLessAndEq_eq_lt.2 (bytes_lt_iff.1 h)
      exact hlt
    | int_str | int_bool | str_bool | bool => rfl

theorem compare_eq_eq_iff : compare k l = .eq ↔ k = l := Std.LawfulEqCmp.compare_eq_iff_eq

theorem Below.irrefl (k : Key) : ¬ k.Below k := by
  have hself : compare k k = .eq := compare_eq_eq_iff.2 rfl
  rw [← compare_eq_lt_iff, hself]
  exact Ordering.noConfusion

theorem Below.trans (hjk : j.Below k) (hkl : k.Below l) : j.Below l :=
  compare_eq_lt_iff.1 (Std.TransCmp.lt_trans (compare_eq_lt_iff.2 hjk) (compare_eq_lt_iff.2 hkl))

/-- Two keys are in order, or they are the same. -/
theorem below_or_eq_or_below (k l : Key) : k.Below l ∨ k = l ∨ l.Below k := by
  rw [← compare_eq_lt_iff, ← compare_eq_lt_iff, ← compare_eq_eq_iff]
  cases h : compare k l with
  | lt => exact .inl rfl
  | eq => exact .inr (.inl rfl)
  | gt => exact .inr (.inr (Std.OrientedCmp.lt_of_gt h))

instance : IsStrictTotalOrder Key Below where
  trichotomous k l hkl hlk := ((below_or_eq_or_below k l).resolve_left hkl).resolve_right hlk
  irrefl := Below.irrefl
  trans _ _ _ := Below.trans

/-- Values that tables can be keyed by are one key where they are equal. -/
theorem compare_eq_iff_beq {v w : Value} (hv : v.key? = some k) (hw : w.key? = some l) :
    compare k l = .eq ↔ (v == w) = true := by
  rw [compare_eq_eq_iff, beq_iff_eq, ← toValue_of_key? hv, ← toValue_of_key? hw]
  constructor
  · rintro rfl
    rfl
  · intro h
    have hkeys := congrArg Value.key? h
    rw [key?_toValue, key?_toValue] at hkeys
    exact Option.some.inj hkeys

end Key

end MonkeyLang
