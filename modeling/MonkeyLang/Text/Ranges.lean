/-!
# Ranges of code points

A property of characters as a list of inclusive ranges in ascending order, and look-up in it
(`inRanges_iff`).
-/

namespace MonkeyLang.Text

/-! ## Algorithm -/

/-- Whether `n` lies in one of the ranges, which are in ascending order. -/
def inRanges (n : Nat) : List (Nat × Nat) → Bool
  | [] => false
  | (a, b) :: ranges => if n < a then false else n ≤ b || inRanges n ranges

/-! ## Lemmas -/

/-- Look-up stops early, but misses nothing, since the ranges go up. -/
theorem inRanges_iff {n : Nat} {ranges : List (Nat × Nat)}
    (h : ranges.Pairwise fun r s => r.1 ≤ s.1) :
    inRanges n ranges = true ↔ ∃ r ∈ ranges, r.1 ≤ n ∧ n ≤ r.2 := by
  induction ranges with
  | nil => simp [inRanges]
  | cons r ranges ih =>
    obtain ⟨hr, h⟩ := List.pairwise_cons.1 h
    rw [inRanges]
    split
    · next hn =>
      simp only [Bool.false_eq_true, List.mem_cons, false_iff]
      rintro ⟨s, rfl | hs, hle, -⟩
      · exact Nat.not_lt.2 hle hn
      · exact Nat.not_lt.2 (Nat.le_trans (hr s hs) hle) hn
    · next hn => simp [ih h, Nat.not_lt.1 hn]

end MonkeyLang.Text
