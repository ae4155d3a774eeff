/-!
# Bytes and their ASCII classes

Programs are read as bytes, which need not be well-formed UTF-8.  The lexical
rules only ever look at ASCII, so each class below is a set of bytes under
`0x80`; every other byte belongs to none of them.
-/

namespace MinBasic

/-- Text as it is read and written. -/
abbrev Bytes :=
  List UInt8

namespace Text.Ascii

/-- The byte that ends a line. -/
def newline : UInt8 := 0x0A

/-- The byte that opens and closes a quoted string. -/
def quote : UInt8 := 0x22

/-- The byte between the whole and the fractional digits of a numeral. -/
def point : UInt8 := 0x2E

/-- The byte that ends the text quoted in a report. -/
def nul : UInt8 := 0x00

/-- Tab, line feed, form feed, carriage return and space.  The vertical tab is
not blank. -/
def isBlank (byte : UInt8) : Bool :=
  byte = 0x09 || byte = 0x0A || byte = 0x0C || byte = 0x0D || byte = 0x20

/-- The digits `0` to `9`. -/
def isDigit (byte : UInt8) : Bool :=
  0x30 ≤ byte && byte ≤ 0x39

/-- The letters `A` to `Z`. -/
def isUpper (byte : UInt8) : Bool :=
  0x41 ≤ byte && byte ≤ 0x5A

/-- The letters `a` to `z`. -/
def isLower (byte : UInt8) : Bool :=
  0x61 ≤ byte && byte ≤ 0x7A

/-- A letter of either case. -/
def isLetter (byte : UInt8) : Bool :=
  isUpper byte || isLower byte

/-- The letter that introduces an exponent, `E` or `e`. -/
def isExponentMark (byte : UInt8) : Bool :=
  byte = 0x45 || byte = 0x65

/-- The signs `+` and `-`. -/
def isSign (byte : UInt8) : Bool :=
  byte = 0x2B || byte = 0x2D

/-- The character with the byte's number. -/
def toChar (byte : UInt8) : Char :=
  Char.ofNat byte.toNat

@[simp]
theorem isBlank_newline : isBlank newline = true :=
  rfl

@[simp]
theorem isDigit_point : isDigit point = false :=
  rfl

/-- No digit is blank. -/
theorem isBlank_eq_false_of_isDigit {byte : UInt8} (digit : isDigit byte = true) :
    isBlank byte = false := by
  simp only [isDigit, isBlank, Bool.and_eq_true, decide_eq_true_eq, Bool.or_eq_false_iff,
    decide_eq_false_iff_not, UInt8.le_iff_toNat_le, ← UInt8.toNat_inj,
    UInt8.reduceToNat] at *
  omega

/-- No exponent mark is blank. -/
theorem isBlank_eq_false_of_isExponentMark {byte : UInt8}
    (mark : isExponentMark byte = true) : isBlank byte = false := by
  simp only [isExponentMark, Bool.or_eq_true, decide_eq_true_eq] at mark
  rcases mark with rfl | rfl <;> rfl

/-- No sign is blank. -/
theorem isBlank_eq_false_of_isSign {byte : UInt8} (sign : isSign byte = true) :
    isBlank byte = false := by
  simp only [isSign, Bool.or_eq_true, decide_eq_true_eq] at sign
  rcases sign with rfl | rfl <;> rfl

/-- No exponent mark is a digit. -/
theorem isDigit_eq_false_of_isExponentMark {byte : UInt8}
    (mark : isExponentMark byte = true) : isDigit byte = false := by
  simp only [isExponentMark, Bool.or_eq_true, decide_eq_true_eq] at mark
  rcases mark with rfl | rfl <;> rfl

/-- No exponent mark is a sign. -/
theorem isSign_eq_false_of_isExponentMark {byte : UInt8}
    (mark : isExponentMark byte = true) : isSign byte = false := by
  simp only [isExponentMark, Bool.or_eq_true, decide_eq_true_eq] at mark
  rcases mark with rfl | rfl <;> rfl

/-- No digit is a sign. -/
theorem isSign_eq_false_of_isDigit {byte : UInt8} (digit : isDigit byte = true) :
    isSign byte = false := by
  cases sign : isSign byte with
  | false => rfl
  | true =>
      simp only [isSign, Bool.or_eq_true, decide_eq_true_eq] at sign
      rcases sign with rfl | rfl <;> simp [isDigit] at digit

end Text.Ascii

end MinBasic
