import MinBasic.Text.Ascii

/-!
# The cursor of a diagnosis

A cursor names the place that a report speaks of: a line, and the text at that
place.  Lines up to zero are unknown places.  Only the beginning of the text is
quoted, and never past a NUL or the end of the line.
-/

namespace MinBasic.Diagnostic

open Text.Ascii

/-- A line number and the text under the cursor. -/
structure Cursor where
  line : Int := 0
  text : Bytes := []
  deriving DecidableEq, Repr

namespace Cursor

/-- The most bytes of the text that are quoted. -/
def excerptLimit : Nat := 20

/-- Go to the next line; the text stays. -/
def nextLine (cursor : Cursor) : Cursor :=
  { cursor with line := cursor.line + 1 }

/-- Put a text under the cursor. -/
def withText (cursor : Cursor) (text : Bytes) : Cursor :=
  { cursor with text }

/-- Take the text from under the cursor. -/
def clearText (cursor : Cursor) : Cursor :=
  cursor.withText []

/-- A byte that can be quoted. -/
def isExcerptByte (byte : UInt8) : Bool :=
  byte ≠ nul && byte ≠ newline

/-- The quoted beginning of the text. -/
def excerpt (cursor : Cursor) : Bytes :=
  (cursor.text.take excerptLimit).takeWhile isExcerptByte

@[simp]
theorem line_withText (cursor : Cursor) (text : Bytes) :
    (cursor.withText text).line = cursor.line :=
  rfl

theorem length_excerpt_le (cursor : Cursor) : cursor.excerpt.length ≤ excerptLimit :=
  Nat.le_trans (List.takeWhile_sublist _).length_le (List.length_take_le _ _)

end Cursor

end MinBasic.Diagnostic
