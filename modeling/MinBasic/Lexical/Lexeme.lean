import MinBasic.Lexical.Recognition

/-!
# The lexemes of a text

A text is read from its start, one lexeme at a time.  A `Place` is where the
reading stands; it gives the `lexeme` that comes next and the place after it.
Blanks before a lexeme belong to no lexeme, except that a remark starts right
after its keyword.  Past the last lexeme every place reads the end of the text
again.

The text at a place is the blanks, the next lexeme and the text after it, so no
byte is lost.  An empty remark leaves the place where it is but ends the remark
mode; `weight` counts that mode as one more byte, and so every lexeme makes a
place lighter and the list of lexemes is finite.
-/

namespace MinBasic.Lexical

open Text.Ascii

/-- A reading and the piece of text that it covers. -/
structure Lexeme where
  reading : Reading
  start : Nat
  text : Bytes
  deriving DecidableEq, Repr

/-- The offset of the first byte after a lexeme. -/
def Lexeme.stop (lexeme : Lexeme) : Nat :=
  lexeme.start + lexeme.text.length

/-- Where the reading of a text stands: the bytes before it, counted, the bytes
after it, and how they are to be read. -/
structure Place where
  offset : Nat
  rest : Bytes
  mode : Mode
  deriving DecidableEq, Repr

namespace Place

/-- The place at the start of a text. -/
def opening (text : Bytes) : Place :=
  ⟨0, text, .opening⟩

/-- Whether no byte is left. -/
def isAtEnd (place : Place) : Bool :=
  place.rest.isEmpty

/-- The number of blanks that are skipped before the next lexeme. -/
def blanks (place : Place) : Nat :=
  match place.mode with
  | .remark => 0
  | _ => (place.rest.takeWhile isBlank).length

/-- The text that starts with the next lexeme. -/
def ahead (place : Place) : Bytes :=
  place.rest.drop place.blanks

/-- What the next lexeme is, and its length. -/
def recognition (place : Place) : Recognition :=
  .ofText place.mode place.ahead

/-- The next lexeme. -/
def lexeme (place : Place) : Lexeme where
  reading := place.recognition.reading
  start := place.offset + place.blanks
  text := place.ahead.take place.recognition.length

/-- The place after the next lexeme. -/
def next (place : Place) : Place where
  offset := place.lexeme.stop
  rest := place.ahead.drop place.recognition.length
  mode := place.recognition.reading.nextMode

@[simp]
theorem next_offset (place : Place) : place.next.offset = place.lexeme.stop :=
  rfl

theorem next_eq (place : Place) :
    place.next = ⟨place.lexeme.stop, place.next.rest, place.lexeme.reading.nextMode⟩ :=
  rfl

/-- The text at a place is made of blanks, the next lexeme and the text at the
place after it. -/
theorem rest_eq (place : Place) :
    place.rest = place.rest.take place.blanks ++ (place.lexeme.text ++ place.next.rest) := by
  rw [lexeme, next, List.take_append_drop, ahead, List.take_append_drop]

theorem length_lexeme_text (place : Place) :
    place.lexeme.text.length = place.recognition.length := by
  rw [lexeme, List.length_take]
  exact Nat.min_eq_left (Recognition.ofText_length_le _ _)

/-- The number of bytes left, and one more for a remark to be read. -/
def weight (place : Place) : Nat :=
  place.rest.length + if place.mode = .remark then 1 else 0

/-- Every lexeme makes a place lighter. -/
theorem weight_next_lt {place : Place} (more : place.lexeme.reading ≠ .endOfText) :
    place.next.weight < place.weight := by
  have within := Recognition.ofText_length_le place.mode place.ahead
  have left : place.next.rest.length = place.ahead.length - place.recognition.length :=
    List.length_drop
  have ahead_le : place.ahead.length ≤ place.rest.length := by
    rw [ahead, List.length_drop]
    exact Nat.sub_le _ _
  have more : ¬ (place.mode ≠ .remark ∧ place.ahead = []) :=
    mt Recognition.ofText_reading_eq_endOfText_iff.mpr more
  by_cases wasRemark : place.mode = .remark
  · have nextMode : place.next.mode ≠ .remark := by
      simp [next, recognition, wasRemark, Recognition.ofText, Recognition.remark,
        Reading.nextMode]
    simp only [weight, wasRemark, nextMode, if_true, if_false]
    omega
  · have ahead_pos : 0 < place.ahead.length :=
      List.length_pos_iff.mpr fun empty => more ⟨wasRemark, empty⟩
    have taken : (if place.next.mode = .remark then 1 else 0) < place.recognition.length := by
      split
      · rename_i isRemark
        have isRem : place.recognition.reading = .terminal .kwRem := by
          by_cases isRem : place.recognition.reading = .terminal .kwRem
          · exact isRem
          · simp [next, Reading.nextMode, isRem] at isRemark
        rw [recognition, Recognition.ofText_length_of_kwRem isRem]
        decide
      · unfold recognition
        cases here : place.ahead with
        | nil => simp [here] at ahead_pos
        | cons byte rest =>
            cases mode : place.mode with
            | opening => exact Recognition.statement_length_pos true byte rest
            | statement => exact Recognition.statement_length_pos false byte rest
            | remark => exact absurd mode wasRemark
    have fits : place.recognition.length ≤ place.ahead.length := within
    simp only [weight, wasRemark, if_false]
    omega

/-- The lexemes from a place to the end of its text. -/
def lexemes (place : Place) : List Lexeme :=
  if place.lexeme.reading = .endOfText then
    []
  else
    place.lexeme :: place.next.lexemes
termination_by place.weight
decreasing_by exact weight_next_lt ‹_›

/-- A number of lexemes from a place, each with the place after it.  The end of
the text is read as often as it is asked for. -/
def steps : Nat → Place → List (Lexeme × Place)
  | 0, _ => []
  | count + 1, place => (place.lexeme, place.next) :: steps count place.next

end Place

/-- The lexemes of a text, without the end of the text. -/
def lexemes (text : Bytes) : List Lexeme :=
  (Place.opening text).lexemes

end MinBasic.Lexical
