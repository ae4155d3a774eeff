import MinBasic.Lexical.Numeral
import MinBasic.Lexical.Token
import MinBasic.Text.Utf8

/-!
# Recognising one lexeme

What stands at the start of a text, and how many bytes of it that takes.  The
first byte decides which rule applies; the mode of the scan decides whether a
run of digits is a line number and whether the text is a remark.

A recognition never takes more than the text holds, and it takes something
unless the text is at its end or an empty remark is read.
-/

namespace MinBasic.Lexical

open Text.Ascii

/-- How the next lexeme is to be read: as the first of a text, as a later one,
or as the remark after its keyword. -/
inductive Mode where
  | opening
  | statement
  | remark
  deriving DecidableEq, Repr

/-- The mode after a reading. -/
def Reading.nextMode (reading : Reading) : Mode :=
  if reading = .terminal .kwRem then .remark else .statement

/-- Only the keyword of a remark is followed by a remark. -/
theorem Reading.nextMode_eq_remark_iff {reading : Reading} :
    reading.nextMode = .remark ↔ reading = .terminal .kwRem := by
  rw [nextMode]
  split <;> simp_all

/-- What follows a reading is no opening. -/
theorem Reading.nextMode_ne_opening (reading : Reading) : reading.nextMode ≠ .opening := by
  rw [nextMode]
  split <;> decide

/-- What was recognised at the start of a text, and its length in bytes. -/
structure Recognition where
  reading : Reading
  length : Nat
  deriving DecidableEq, Repr

namespace Recognition

/-! ## The rules -/

/-- The bytes `+ - * / ^ ( ) = , ;`, which are tokens by themselves. -/
def isSymbol (byte : UInt8) : Bool :=
  byte = 0x2B || byte = 0x2D || byte = 0x2A || byte = 0x2F || byte = 0x5E ||
    byte = 0x28 || byte = 0x29 || byte = 0x3D || byte = 0x2C || byte = 0x3B

/-- The bytes `<` and `>`. -/
def isComparison (byte : UInt8) : Bool :=
  byte = 0x3C || byte = 0x3E

/-- The operator `<=`, `<>` or `>=` made of a byte and the byte after it. -/
def operator? (first : UInt8) : Bytes → Option Terminal
  | [] => none
  | second :: _ =>
      if first = 0x3C ∧ second = 0x3D then some .lessEqual
      else if first = 0x3C ∧ second = 0x3E then some .notEqual
      else if first = 0x3E ∧ second = 0x3D then some .greaterEqual
      else none

/-- A comparison takes two bytes where they make an operator, else one. -/
def comparison (byte : UInt8) (rest : Bytes) : Recognition :=
  match operator? byte rest with
  | some operator => ⟨.terminal operator, 2⟩
  | none => ⟨.char byte, 1⟩

/-- A byte that can stand inside a quoted string. -/
def isQuotable (byte : UInt8) : Bool :=
  byte ≠ quote && byte ≠ newline

/-- A quoted string, after its opening quote, runs to the next quote on its
line.  Without one the fault takes the whole rest of the text. -/
def quoted (rest : Bytes) : Recognition :=
  let inner := (rest.takeWhile isQuotable).length
  if (rest.drop inner).head? = some quote then
    ⟨.terminal .quotedString, inner + 2⟩
  else
    ⟨.fault .unterminatedString, rest.length + 1⟩

/-- A numeral is a line number when it opens a text and is a plain run of
digits. -/
def numeral (isOpening : Bool) (bytes : Bytes) : Recognition :=
  ⟨.terminal (if isOpening && Numeral.isWhole bytes then .lineNumber else .numConstant),
    Numeral.length bytes⟩

/-- The length of the digit that may follow the letter of an identifier. -/
def digitLength : Bytes → Nat
  | [] => 0
  | byte :: _ => if isDigit byte then 1 else 0

/-- The longest run of letters is a keyword, or, when it is a single letter, the
start of an identifier. -/
def word (bytes : Bytes) : Recognition :=
  let letters := bytes.takeWhile isLetter
  match Terminal.ofSpelling? (letters.map toChar) with
  | some keyword => ⟨.terminal keyword, letters.length⟩
  | none =>
      if letters.length = 1 then
        ⟨.terminal .numIdentifier, 1 + digitLength (bytes.drop 1)⟩
      else
        ⟨.fault .unrecognizedWord, letters.length⟩

/-- Any other byte is a fault, together with the continuation bytes of the
character it may start. -/
def unexpected (byte : UInt8) (rest : Bytes) : Recognition :=
  ⟨.fault .unexpectedCharacter,
    1 + if Text.Utf8.isLead byte then (rest.takeWhile Text.Utf8.isContinuation).length else 0⟩

/-- A lexeme of a statement; the text does not start with a blank. -/
def statement (isOpening : Bool) : Bytes → Recognition
  | [] => ⟨.endOfText, 0⟩
  | byte :: rest =>
      if isSymbol byte then ⟨.char byte, 1⟩
      else if isComparison byte then comparison byte rest
      else if byte = quote then quoted rest
      else if Numeral.starts (byte :: rest) then numeral isOpening (byte :: rest)
      else if isLetter byte then word (byte :: rest)
      else unexpected byte rest

/-- A byte that can stand in a remark. -/
def isRemarkByte (byte : UInt8) : Bool :=
  byte ≠ newline

/-- A remark runs to the end of its line and may be empty. -/
def remark (bytes : Bytes) : Recognition :=
  ⟨.terminal .remarkString, (bytes.takeWhile isRemarkByte).length⟩

/-- The lexeme at the start of a text. -/
def ofText : Mode → Bytes → Recognition
  | .opening, bytes => statement true bytes
  | .statement, bytes => statement false bytes
  | .remark, bytes => remark bytes

/-! ## Lengths -/

private theorem length_takeWhile_le (accepts : UInt8 → Bool) (bytes : Bytes) :
    (bytes.takeWhile accepts).length ≤ bytes.length :=
  (List.takeWhile_sublist _).length_le

theorem comparison_length_le (byte : UInt8) (rest : Bytes) :
    (comparison byte rest).length ≤ rest.length + 1 := by
  unfold comparison
  cases rest with
  | nil => simp [operator?]
  | cons second rest => split <;> simp

theorem comparison_length_pos (byte : UInt8) (rest : Bytes) :
    0 < (comparison byte rest).length := by
  unfold comparison
  split <;> simp

theorem quoted_length_le (rest : Bytes) : (quoted rest).length ≤ rest.length + 1 := by
  unfold quoted
  dsimp only
  split
  · rename_i closed
    have : rest.drop (rest.takeWhile isQuotable).length ≠ [] := by
      intro empty
      simp [empty] at closed
    have := mt List.drop_eq_nil_of_le this
    dsimp only
    omega
  · exact Nat.le_refl _

theorem quoted_length_pos (rest : Bytes) : 0 < (quoted rest).length := by
  unfold quoted
  dsimp only
  split <;> simp

theorem digitLength_le (bytes : Bytes) : digitLength bytes ≤ bytes.length := by
  cases bytes with
  | nil => exact Nat.le_refl 0
  | cons byte rest => rw [digitLength, List.length_cons]; split <;> omega

theorem word_length_le (bytes : Bytes) : (word bytes).length ≤ bytes.length := by
  have letters := length_takeWhile_le isLetter bytes
  have digit := digitLength_le (bytes.drop 1)
  rw [List.length_drop] at digit
  unfold word
  dsimp only
  split
  · exact letters
  · split
    · dsimp only
      omega
    · exact letters

theorem word_length_pos {byte : UInt8} {rest : Bytes} (letter : isLetter byte = true) :
    0 < (word (byte :: rest)).length := by
  unfold word
  dsimp only
  split
  · simp [letter]
  · split
    · dsimp only
      omega
    · simp [letter]

theorem unexpected_length_le (byte : UInt8) (rest : Bytes) :
    (unexpected byte rest).length ≤ rest.length + 1 := by
  have := length_takeWhile_le Text.Utf8.isContinuation rest
  unfold unexpected
  dsimp only
  split <;> omega

theorem unexpected_length_pos (byte : UInt8) (rest : Bytes) :
    0 < (unexpected byte rest).length := by
  unfold unexpected
  dsimp only
  omega

theorem statement_length_le (isOpening : Bool) (bytes : Bytes) :
    (statement isOpening bytes).length ≤ bytes.length := by
  cases bytes with
  | nil => exact Nat.le_refl 0
  | cons byte rest =>
      rw [statement]
      split
      · simp
      split
      · exact comparison_length_le byte rest
      split
      · exact quoted_length_le rest
      split
      · exact Numeral.length_le _
      split
      · exact word_length_le _
      · exact unexpected_length_le byte rest

/-- A lexeme of a statement is not empty. -/
theorem statement_length_pos (isOpening : Bool) (byte : UInt8) (rest : Bytes) :
    0 < (statement isOpening (byte :: rest)).length := by
  rw [statement]
  split
  · simp
  split
  · exact comparison_length_pos byte rest
  split
  · exact quoted_length_pos rest
  split
  · rename_i started
    exact Numeral.length_pos started
  split
  · rename_i letter
    exact word_length_pos letter
  · exact unexpected_length_pos byte rest

/-- A lexeme lies within its text. -/
theorem ofText_length_le (mode : Mode) (bytes : Bytes) :
    (ofText mode bytes).length ≤ bytes.length := by
  cases mode with
  | opening => exact statement_length_le true bytes
  | statement => exact statement_length_le false bytes
  | remark => exact length_takeWhile_le _ bytes

/-! ## Readings -/

private theorem statement_cons_reading_ne_endOfText (isOpening : Bool) (byte : UInt8)
    (rest : Bytes) : (statement isOpening (byte :: rest)).reading ≠ .endOfText := by
  rw [statement]
  split
  · simp
  split
  · unfold comparison
    split <;> simp
  split
  · unfold quoted
    dsimp only
    split <;> simp
  split
  · simp [numeral]
  split
  · unfold word
    dsimp only
    split
    · simp
    · split <;> simp
  · simp [unexpected]

/-- The end of the text is read exactly where nothing is left, remarks apart. -/
theorem ofText_reading_eq_endOfText_iff {mode : Mode} {bytes : Bytes} :
    (ofText mode bytes).reading = .endOfText ↔ mode ≠ .remark ∧ bytes = [] := by
  cases mode with
  | remark => simp [ofText, remark]
  | opening =>
      cases bytes with
      | nil => simp [ofText, statement]
      | cons byte rest => simp [ofText, statement_cons_reading_ne_endOfText]
  | statement =>
      cases bytes with
      | nil => simp [ofText, statement]
      | cons byte rest => simp [ofText, statement_cons_reading_ne_endOfText]

private theorem operator?_ne_kwRem (byte : UInt8) (rest : Bytes) :
    operator? byte rest ≠ some .kwRem := by
  cases rest with
  | nil => simp [operator?]
  | cons second rest =>
      rw [operator?]
      repeat' split
      all_goals simp

/-- The keyword of a remark takes its three letters. -/
theorem ofText_length_of_kwRem {mode : Mode} {bytes : Bytes}
    (isRem : (ofText mode bytes).reading = .terminal .kwRem) :
    (ofText mode bytes).length = 3 := by
  have inStatement : ∀ isOpening, (statement isOpening bytes).reading = .terminal .kwRem →
      (statement isOpening bytes).length = 3 := by
    intro isOpening
    cases bytes with
    | nil => simp [statement]
    | cons byte rest =>
        rw [statement]
        split
        · simp
        split
        · have := operator?_ne_kwRem byte rest
          unfold comparison
          split <;> simp_all
        split
        · unfold quoted
          dsimp only
          split <;> simp
        split
        · unfold numeral
          dsimp only
          split <;> simp
        split
        · unfold word
          dsimp only
          split
          · rename_i keyword spelled
            intro isRem
            have isRem : keyword = .kwRem := by simpa using isRem
            have spelled := (Terminal.ofSpelling?_eq_some_iff.mp spelled).2
            have sameLength := congrArg List.length spelled
            rw [isRem] at sameLength
            simpa [Terminal.name] using sameLength.symm
          · split <;> simp
        · simp [unexpected]
  cases mode with
  | opening => exact inStatement true isRem
  | statement => exact inStatement false isRem
  | remark => simp [ofText, remark] at isRem

end Recognition

end MinBasic.Lexical
