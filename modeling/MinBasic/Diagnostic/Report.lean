import MinBasic.Diagnostic.Cursor
import MinBasic.Text.Decimal
import MinBasic.Text.Utf8

/-!
# Reports

A report is one line of output:

    [error N] file F, line L near "T": message

The clauses for file, line and text are left out where there is nothing to say,
and the colon with the last of them.  A `Report` holds what such a line shows
and nothing else, so equal reports are equal lines.
-/

namespace MinBasic.Diagnostic

open Text Text.Ascii

/-- What a report line shows. -/
structure Report where
  number : Nat
  file? : Option Bytes
  line? : Option Nat
  excerpt : Bytes
  message : String
  deriving DecidableEq, Repr

/-- The name of a source as a report shows it.  A name in quotes is shown
without its first and last byte, whatever the last one is; an empty name, quoted
or not, is not shown. -/
def shownName? (source : String) : Option Bytes :=
  let name := Utf8.encode source
  if name = [] ∨ name = [quote, quote] then
    none
  else if name.head? = some quote then
    some name.tail.dropLast
  else
    some name

/-- Join two optional clauses. -/
def joinClauses (separator : Bytes) : Option Bytes → Option Bytes → Option Bytes
  | some left, some right => some (left ++ separator ++ right)
  | some left, none => some left
  | none, right => right

@[simp]
theorem joinClauses_none_left (separator : Bytes) (right : Option Bytes) :
    joinClauses separator none right = right :=
  rfl

@[simp]
theorem joinClauses_none_right (separator : Bytes) (left : Option Bytes) :
    joinClauses separator left none = left := by
  cases left <;> rfl

@[simp]
theorem joinClauses_some_some (separator left right : Bytes) :
    joinClauses separator (some left) (some right) = some (left ++ separator ++ right) :=
  rfl

namespace Report

/-- The report of a message at a cursor. -/
def ofCursor (number : Nat) (source? : Option String) (cursor : Cursor) (message : String) :
    Report where
  number := number
  file? := source?.bind shownName?
  line? := if 0 < cursor.line then some cursor.line.toNat else none
  excerpt := cursor.excerpt
  message := message

/-- The file clause, `file F`. -/
def fileClause? (report : Report) : Option Bytes :=
  report.file?.map fun name => Utf8.encode "file " ++ name

/-- The line clause, `line L`. -/
def lineClause? (report : Report) : Option Bytes :=
  report.line?.map fun line => Utf8.encode "line " ++ decimal line

/-- The clause of the quoted text, `near "T"`. -/
def nearClause? (report : Report) : Option Bytes :=
  if report.excerpt = [] then
    none
  else
    some (Utf8.encode "near " ++ [quote] ++ report.excerpt ++ [quote])

/-- The clauses that are present, joined. -/
def position? (report : Report) : Option Bytes :=
  joinClauses (Utf8.encode " ")
    (joinClauses (Utf8.encode ", ") report.fileClause? report.lineClause?)
    report.nearClause?

/-- The clauses and their colon. -/
def heading (report : Report) : Bytes :=
  match report.position? with
  | none => []
  | some position => position ++ Utf8.encode ": "

/-- The line of a report. -/
def render (report : Report) : Bytes :=
  Utf8.encode "[error " ++ decimal report.number ++ Utf8.encode "] " ++ report.heading ++
    Utf8.encode report.message ++ [newline]

end Report

end MinBasic.Diagnostic
