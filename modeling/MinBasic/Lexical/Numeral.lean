import MinBasic.Text.Ascii

/-!
# Numerals

A numeral is a run of digits, a fraction, or both, followed by an exponent if
there is one.  A fraction is a point and a run of digits; after whole digits the
run may be empty.  An exponent is a mark, an optional sign and at least one
digit; a mark without a digit is no exponent and is left for the next token.

Each part is measured by the number of bytes it takes at the start of a text.
-/

namespace MinBasic.Lexical.Numeral

open Text.Ascii

/-- The number of digits at the start of a text. -/
def wholeLength (bytes : Bytes) : Nat :=
  (bytes.takeWhile isDigit).length

/-- The length of a point and the digits after it. -/
def fractionLength : Bytes → Nat
  | [] => 0
  | byte :: rest => if byte = point then 1 + wholeLength rest else 0

/-- The length of an optional sign. -/
def signLength : Bytes → Nat
  | [] => 0
  | byte :: _ => if isSign byte then 1 else 0

/-- The length of an exponent: mark, optional sign, at least one digit. -/
def exponentLength : Bytes → Nat
  | [] => 0
  | byte :: rest =>
      let sign := signLength rest
      let digits := wholeLength (rest.drop sign)
      if isExponentMark byte ∧ digits ≠ 0 then 1 + sign + digits else 0

/-- The length of the whole digits and the fraction. -/
def mantissaLength (bytes : Bytes) : Nat :=
  wholeLength bytes + fractionLength (bytes.drop (wholeLength bytes))

/-- The length of the numeral at the start of a text. -/
def length (bytes : Bytes) : Nat :=
  mantissaLength bytes + exponentLength (bytes.drop (mantissaLength bytes))

/-- Whether a numeral starts the text: a digit, or a point and a digit. -/
def starts : Bytes → Bool
  | [] => false
  | byte :: rest => isDigit byte || (byte = point && wholeLength rest ≠ 0)

/-- Whether the numeral at the start of a text is a plain run of digits. -/
def isWhole (bytes : Bytes) : Bool :=
  length bytes = wholeLength bytes

theorem wholeLength_le (bytes : Bytes) : wholeLength bytes ≤ bytes.length :=
  (List.takeWhile_sublist _).length_le

theorem fractionLength_le (bytes : Bytes) : fractionLength bytes ≤ bytes.length := by
  cases bytes with
  | nil => exact Nat.le_refl 0
  | cons byte rest =>
      have := wholeLength_le rest
      rw [fractionLength, List.length_cons]
      split <;> omega

theorem exponentLength_le (bytes : Bytes) : exponentLength bytes ≤ bytes.length := by
  cases bytes with
  | nil => exact Nat.le_refl 0
  | cons byte rest =>
      have digits := wholeLength_le (rest.drop (signLength rest))
      rw [List.length_drop] at digits
      rw [exponentLength, List.length_cons]
      split <;> omega

theorem mantissaLength_le (bytes : Bytes) : mantissaLength bytes ≤ bytes.length := by
  have whole := wholeLength_le bytes
  have fraction := fractionLength_le (bytes.drop (wholeLength bytes))
  rw [List.length_drop] at fraction
  unfold mantissaLength
  omega

/-- A numeral lies within its text. -/
theorem length_le (bytes : Bytes) : length bytes ≤ bytes.length := by
  have mantissa := mantissaLength_le bytes
  have exponent := exponentLength_le (bytes.drop (mantissaLength bytes))
  rw [List.length_drop] at exponent
  unfold length
  omega

/-- A numeral is not empty. -/
theorem length_pos {bytes : Bytes} (started : starts bytes = true) : 0 < length bytes := by
  have mantissa : 0 < mantissaLength bytes := by
    cases bytes with
    | nil => simp [starts] at started
    | cons byte rest =>
        by_cases digit : isDigit byte
        · have whole : 0 < wholeLength (byte :: rest) := by simp [wholeLength, digit]
          exact Nat.lt_of_lt_of_le whole (Nat.le_add_right _ _)
        · have isPoint : byte = point := by
            simp only [starts, digit, Bool.false_or, Bool.and_eq_true,
              decide_eq_true_eq] at started
            exact started.1
          have noWhole : wholeLength (byte :: rest) = 0 := by simp [wholeLength, digit]
          have fraction : 0 < fractionLength (byte :: rest) := by
            rw [fractionLength, if_pos isPoint]
            exact Nat.lt_of_lt_of_le Nat.one_pos (Nat.le_add_right _ _)
          simpa [mantissaLength, noWhole] using fraction
  exact Nat.lt_of_lt_of_le mantissa (Nat.le_add_right _ _)

end MinBasic.Lexical.Numeral
