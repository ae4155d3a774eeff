import MinBasic.Proofs.Lexical.Calls
import MinBasic.Proofs.Text.LetterCase

/-!
# Letter case does not matter to a scan

Every rule recognises a text as it recognises the text in upper case.  The tests of
single bytes do not see letter case, the keyword table is looked up in upper case,
and a byte that is a token by itself is no letter.  So the lexemes of a text in
upper case are those of the text with their own texts in upper case.
-/

namespace MinBasic.Lexical

open Text Text.Ascii

/-! ## Numerals -/

namespace Numeral

theorem wholeLength_upperCase (text : Bytes) : wholeLength (upperCase text) = wholeLength text :=
  length_takeWhile_upperCase isDigit_upper text

theorem fractionLength_upperCase (text : Bytes) :
    fractionLength (upperCase text) = fractionLength text := by
  cases text with
  | nil => rfl
  | cons byte rest =>
      have isPoint : upper byte = point ↔ byte = point := upper_eq_iff rfl
      simp only [upperCase_cons, fractionLength, isPoint, wholeLength_upperCase]

theorem signLength_upperCase (text : Bytes) : signLength (upperCase text) = signLength text := by
  cases text with
  | nil => rfl
  | cons byte rest => rw [upperCase_cons, signLength, signLength, isSign_upper]

theorem exponentLength_upperCase (text : Bytes) :
    exponentLength (upperCase text) = exponentLength text := by
  cases text with
  | nil => rfl
  | cons byte rest =>
      simp only [upperCase_cons, exponentLength, isExponentMark_upper, signLength_upperCase,
        ← upperCase_drop, wholeLength_upperCase]

theorem mantissaLength_upperCase (text : Bytes) :
    mantissaLength (upperCase text) = mantissaLength text := by
  rw [mantissaLength, wholeLength_upperCase, ← upperCase_drop, fractionLength_upperCase]
  rfl

theorem length_upperCase (text : Bytes) : length (upperCase text) = length text := by
  rw [length, mantissaLength_upperCase, ← upperCase_drop, exponentLength_upperCase]
  rfl

theorem starts_upperCase (text : Bytes) : starts (upperCase text) = starts text := by
  cases text with
  | nil => rfl
  | cons byte rest =>
      have isPoint : upper byte = point ↔ byte = point := upper_eq_iff rfl
      simp only [upperCase_cons, starts, isDigit_upper, isPoint, wholeLength_upperCase]

theorem isWhole_upperCase (text : Bytes) : isWhole (upperCase text) = isWhole text := by
  rw [isWhole, length_upperCase, wholeLength_upperCase]
  rfl

end Numeral

/-! ## The rules -/

namespace Recognition

theorem isSymbol_upper (byte : UInt8) : isSymbol (upper byte) = isSymbol byte :=
  apply_upper (by decide) byte

theorem isComparison_upper (byte : UInt8) : isComparison (upper byte) = isComparison byte :=
  apply_upper (by decide) byte

/-- A byte that is a token by itself is no letter. -/
theorem upper_eq_self_of_token {byte : UInt8}
    (isToken : isSymbol byte = true ∨ isComparison byte = true) : upper byte = byte := by
  have unchanged : ∀ byte ∈ ([0x2B, 0x2D, 0x2A, 0x2F, 0x5E, 0x28, 0x29, 0x3D, 0x2C, 0x3B, 0x3C,
      0x3E] : Bytes), upper byte = byte := by decide +kernel
  simp only [isSymbol, isComparison, Bool.or_eq_true, decide_eq_true_eq, or_assoc] at isToken
  exact unchanged byte (by simpa using isToken)

theorem operator?_upperCase (byte : UInt8) (rest : Bytes) :
    operator? (upper byte) (upperCase rest) = operator? byte rest := by
  cases rest with
  | nil => rfl
  | cons second rest =>
      have isLess {byte : UInt8} : upper byte = 0x3C ↔ byte = 0x3C := upper_eq_iff rfl
      have isEqual {byte : UInt8} : upper byte = 0x3D ↔ byte = 0x3D := upper_eq_iff rfl
      have isGreater {byte : UInt8} : upper byte = 0x3E ↔ byte = 0x3E := upper_eq_iff rfl
      simp only [upperCase_cons, operator?, isLess, isEqual, isGreater]

theorem comparison_upperCase {byte : UInt8} (isComparison : isComparison byte = true)
    (rest : Bytes) : comparison (upper byte) (upperCase rest) = comparison byte rest := by
  rw [comparison, comparison, operator?_upperCase, upper_eq_self_of_token (Or.inr isComparison)]

theorem quoted_upperCase (rest : Bytes) : quoted (upperCase rest) = quoted rest := by
  have same : ∀ byte, isQuotable (upper byte) = isQuotable byte := apply_upper (by decide)
  have isQuote {text : Bytes} : (upperCase text).head? = some quote ↔ text.head? = some quote :=
    head?_upperCase_eq_some_iff rfl
  simp only [quoted, length_takeWhile_upperCase same, ← upperCase_drop, length_upperCase, isQuote]

theorem numeral_upperCase (isOpening : Bool) (text : Bytes) :
    numeral isOpening (upperCase text) = numeral isOpening text := by
  rw [numeral, Numeral.isWhole_upperCase, Numeral.length_upperCase]
  rfl

theorem digitLength_upperCase (text : Bytes) : digitLength (upperCase text) = digitLength text := by
  cases text with
  | nil => rfl
  | cons byte rest => rw [upperCase_cons, digitLength, digitLength, isDigit_upper]

/-- The keyword table is looked up in upper case. -/
theorem ofSpelling?_upperCase (letters : Bytes) :
    Terminal.ofSpelling? ((upperCase letters).map toChar) =
      Terminal.ofSpelling? (letters.map toChar) := by
  have same (byte : UInt8) : (toChar (upper byte)).toUpper = (toChar byte).toUpper :=
    apply_upper (f := fun byte => (toChar byte).toUpper) (by decide) byte
  simp only [Terminal.ofSpelling?, upperCase, List.map_map, Function.comp_def, same]

theorem word_upperCase (text : Bytes) : word (upperCase text) = word text := by
  simp only [word, takeWhile_upperCase isLetter_upper, ofSpelling?_upperCase, length_upperCase,
    ← upperCase_drop, digitLength_upperCase]

theorem unexpected_upperCase (byte : UInt8) (rest : Bytes) :
    unexpected (upper byte) (upperCase rest) = unexpected byte rest := by
  have isLead : Utf8.isLead (upper byte) = Utf8.isLead byte := apply_upper (by decide) byte
  have same : ∀ byte, Utf8.isContinuation (upper byte) = Utf8.isContinuation byte :=
    apply_upper (by decide)
  rw [unexpected, isLead, length_takeWhile_upperCase same]
  rfl

theorem statement_upperCase (isOpening : Bool) (text : Bytes) :
    statement isOpening (upperCase text) = statement isOpening text := by
  cases text with
  | nil => rfl
  | cons byte rest =>
      have isQuote : upper byte = quote ↔ byte = quote := upper_eq_iff rfl
      simp only [upperCase_cons, statement, isSymbol_upper, isComparison_upper, isQuote,
        isLetter_upper]
      rw [← upperCase_cons, Numeral.starts_upperCase, numeral_upperCase, word_upperCase,
        quoted_upperCase, unexpected_upperCase]
      split
      · rename_i isSymbol
        rw [upper_eq_self_of_token (Or.inl isSymbol)]
      split
      · rename_i isComparison
        rw [comparison_upperCase isComparison]
      · rfl

/-- A text is recognised as it is in upper case. -/
theorem ofText_upperCase (mode : Mode) (text : Bytes) :
    ofText mode (upperCase text) = ofText mode text := by
  have same : ∀ byte, isRemarkByte (upper byte) = isRemarkByte byte := apply_upper (by decide)
  cases mode with
  | opening => exact statement_upperCase true text
  | statement => exact statement_upperCase false text
  | remark =>
      simp only [ofText, remark, length_takeWhile_upperCase same]

end Recognition

/-! ## Lexemes -/

/-- A lexeme with its text in upper case. -/
def Lexeme.inUpper (lexeme : Lexeme) : Lexeme :=
  { lexeme with text := upperCase lexeme.text }

/-- What was read, and between which offsets. -/
def Lexeme.span (lexeme : Lexeme) : Reading × Nat × Nat :=
  (lexeme.reading, lexeme.start, lexeme.stop)

theorem Lexeme.span_inUpper (lexeme : Lexeme) : lexeme.inUpper.span = lexeme.span := by
  rw [span, stop, inUpper, length_upperCase]
  rfl

namespace Place

/-- The same place of the text in upper case. -/
def inUpper (place : Place) : Place :=
  { place with rest := upperCase place.rest }

theorem blanks_inUpper (place : Place) : place.inUpper.blanks = place.blanks := by
  simp only [blanks, inUpper, length_takeWhile_upperCase isBlank_upper]

theorem ahead_inUpper (place : Place) : place.inUpper.ahead = upperCase place.ahead := by
  rw [ahead, blanks_inUpper, ahead, upperCase_drop]
  rfl

theorem recognition_inUpper (place : Place) : place.inUpper.recognition = place.recognition := by
  rw [recognition, ahead_inUpper, Recognition.ofText_upperCase]
  rfl

theorem lexeme_inUpper (place : Place) : place.inUpper.lexeme = place.lexeme.inUpper := by
  rw [lexeme, recognition_inUpper, ahead_inUpper, blanks_inUpper, lexeme, Lexeme.inUpper,
    upperCase_take]
  rfl

theorem next_inUpper (place : Place) : place.inUpper.next = place.next.inUpper := by
  rw [next, lexeme_inUpper, recognition_inUpper, ahead_inUpper, next, inUpper, upperCase_drop,
    Lexeme.stop, Lexeme.stop, Lexeme.inUpper, length_upperCase]

theorem lexemes_inUpper (place : Place) :
    place.inUpper.lexemes = place.lexemes.map Lexeme.inUpper := by
  induction place using lexemes.induct with
  | case1 place isEnd =>
      have isEnd' : place.inUpper.lexeme.reading = .endOfText := by rwa [lexeme_inUpper]
      rw [lexemes_of_endOfText isEnd, lexemes_of_endOfText isEnd', List.map_nil]
  | case2 place more ih =>
      rw [lexemes_of_more more, List.map_cons, lexemes_eq_cons_iff, lexeme_inUpper, next_inUpper,
        ih]
      exact ⟨more, rfl, rfl⟩

theorem calls_inUpper (count : Nat) (place : Place) :
    place.inUpper.calls count = (place.calls count).map Lexeme.inUpper := by
  induction count generalizing place with
  | zero => rfl
  | succ count ih =>
      rw [calls_succ, calls_succ, lexeme_inUpper, next_inUpper, ih, List.map_cons]

end Place

/-- The lexemes of a text in upper case. -/
theorem lexemes_upperCase (text : Bytes) :
    lexemes (upperCase text) = (lexemes text).map Lexeme.inUpper :=
  (Place.opening text).lexemes_inUpper

/-- The calls on a text give the spans that they give in upper case. -/
theorem map_span_calls (count : Nat) (text : Bytes) :
    ((Place.opening text).calls count).map Lexeme.span =
      ((Place.opening (upperCase text)).calls count).map Lexeme.span := by
  have inUpper := (Place.opening text).calls_inUpper count
  have span_eq : Lexeme.span ∘ Lexeme.inUpper = Lexeme.span := funext Lexeme.span_inUpper
  rw [show Place.opening (upperCase text) = (Place.opening text).inUpper from rfl, inUpper,
    List.map_map, span_eq]

end MinBasic.Lexical
