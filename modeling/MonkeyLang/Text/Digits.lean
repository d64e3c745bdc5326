/-!
# Decimal digits

The number that a run of ASCII digits stands for, the first digit being the highest.  Where only a
number below `cap` matters, `cappedNat` stays small on a long run (`cappedNat_eq`).
-/

namespace MonkeyLang.Text

/-! ## Algorithm -/

def digitValue (d : Char) : Nat := d.toNat - '0'.toNat

/-- The number that digits stand for, the first of them counting most. -/
def natOfDigits (ds : List Char) : Nat := ds.foldl (fun n d => 10 * n + digitValue d) 0

/-- The number, or `cap` if it is no less. -/
def cappedNat (cap : Nat) (ds : List Char) : Nat :=
  ds.foldl (fun n d => min (10 * n + digitValue d) cap) 0

/-! ## Lemmas -/

/-- Cutting off at `cap` after each digit does no more than cutting off once. -/
theorem foldl_cappedNat (cap : Nat) (ds : List Char) (n : Nat) :
    ds.foldl (fun n d => min (10 * n + digitValue d) cap) (min n cap) =
      min (ds.foldl (fun n d => 10 * n + digitValue d) n) cap := by
  induction ds generalizing n with
  | nil => rfl
  | cons d ds ih =>
    have h : min (10 * min n cap + digitValue d) cap = min (10 * n + digitValue d) cap := by omega
    rw [List.foldl_cons, List.foldl_cons, h, ih]

theorem cappedNat_eq (cap : Nat) (ds : List Char) :
    cappedNat cap ds = min (natOfDigits ds) cap := by
  have h := foldl_cappedNat cap ds 0
  rwa [Nat.zero_min] at h

end MonkeyLang.Text
