import MinBasic.Text.Ascii

/-!
# Lines

A byte string is cut after every newline, so a line carries the newline that
ends it.  Only the last line can lack one, and an empty rest is no line.  The
lines together are the byte string, and cutting at a line boundary cuts the list
of lines.
-/

namespace MinBasic.Text

open Ascii

/-- Put one byte in front of a text that is already cut into lines. -/
def consByte (byte : UInt8) (lines : List Bytes) : List Bytes :=
  if byte = newline then
    [newline] :: lines
  else
    match lines with
    | [] => [[byte]]
    | line :: more => (byte :: line) :: more

/-- The lines of a byte string, each with its newline. -/
def lines (bytes : Bytes) : List Bytes :=
  bytes.foldr consByte []

@[simp]
theorem lines_nil : lines [] = [] :=
  rfl

@[simp]
theorem lines_cons (byte : UInt8) (bytes : Bytes) :
    lines (byte :: bytes) = consByte byte (lines bytes) :=
  rfl

/-- Whether a line is ended by a newline. -/
def isEnded (line : Bytes) : Bool :=
  line.getLast? = some newline

@[simp]
theorem flatten_consByte (byte : UInt8) (lines : List Bytes) :
    (consByte byte lines).flatten = byte :: lines.flatten := by
  unfold consByte
  split
  · simp_all
  · cases lines <;> simp

/-- The lines of a text, joined, are the text. -/
@[simp]
theorem flatten_lines (bytes : Bytes) : (lines bytes).flatten = bytes := by
  induction bytes with
  | nil => rfl
  | cons byte bytes ih => rw [lines_cons, flatten_consByte, ih]

/-- A nonempty text has a line. -/
@[simp]
theorem lines_eq_nil_iff {bytes : Bytes} : lines bytes = [] ↔ bytes = [] := by
  constructor
  · intro none
    have joined := flatten_lines bytes
    rw [none] at joined
    exact joined.symm
  · rintro rfl
    rfl

theorem consByte_append (byte : UInt8) (left right : List Bytes)
    (boundary : byte = newline ∨ left ≠ []) :
    consByte byte (left ++ right) = consByte byte left ++ right := by
  unfold consByte
  split
  · rfl
  · cases left with
    | nil => simp_all
    | cons line more => rfl

/-- A text that ends at a line boundary can be cut off in front. -/
theorem lines_append {left : Bytes} (boundary : left = [] ∨ isEnded left = true)
    (right : Bytes) : lines (left ++ right) = lines left ++ lines right := by
  induction left with
  | nil => rfl
  | cons byte left ih =>
      cases left with
      | nil =>
          have isNewline : byte = newline := by simpa [isEnded] using boundary
          simp [consByte, isNewline]
      | cons next left =>
          have inner : isEnded (next :: left) = true := by
            simpa [isEnded, List.getLast?_cons_cons] using boundary
          rw [List.cons_append, lines_cons, ih (Or.inr inner), lines_cons byte (next :: left)]
          exact consByte_append _ _ _ (Or.inr (by rw [Ne, lines_eq_nil_iff]; simp))

end MinBasic.Text
