import MinBasic.Text.Ascii

/-!
# Decimal numbers

Counts and line numbers are written in decimal digits, without sign, leading
zeros or grouping.
-/

namespace MinBasic.Text

/-- The decimal digits of a number, the most significant first. -/
def decimal (n : Nat) : Bytes :=
  (Nat.toDigits 10 n).map fun digit => digit.toNat.toUInt8

/-- Every byte of a decimal number is a digit. -/
theorem isDigit_of_mem_decimal {n : Nat} {byte : UInt8} (member : byte ∈ decimal n) :
    Ascii.isDigit byte = true := by
  obtain ⟨digit, digitMem, rfl⟩ := List.mem_map.mp member
  have isDigit := Nat.isDigit_of_mem_toDigits (by decide) (by decide) digitMem
  simp only [Char.isDigit, Bool.and_eq_true, decide_eq_true_eq, ge_iff_le,
    UInt32.le_iff_toNat_le] at isDigit
  simp only [Ascii.isDigit, Bool.and_eq_true, decide_eq_true_eq, UInt8.le_iff_toNat_le,
    Nat.toUInt8, UInt8.toNat_ofNat']
  have lower : 48 ≤ digit.toNat := isDigit.1
  have upper : digit.toNat ≤ 57 := isDigit.2
  simp only [UInt8.reduceToNat]
  omega

end MinBasic.Text
