import MinBasic.Check.Parser
import MinBasic.Check.Progress
import MinBasic.Lexical.Lexeme

/-!
# The token pass

The pass reads the lexemes of every line of its input.  It counts the tokens and
reports the faults, each at its line and with its own text; it ends with status
0 when nothing was reported so far and with status 1 otherwise.  Counts and line
numbers go on from input to input.

A refused report ends the pass at once.  A refused input ends it after the last
line that was read.
-/

namespace MinBasic.Check

open Channel Diagnostic Lexical

/-- The state of a token pass: the errors reported, the place reached, and the
tokens read. -/
structure Pass where
  errors : Nat := 0
  cursor : Cursor := {}
  tokens : Nat := 0
  deriving DecidableEq, Repr

namespace Pass

/-- Count a token, or count and report a fault. -/
def readLexeme (lexeme : Lexeme) : Work Pass := fun pass reporter =>
  let cursor := pass.cursor.withText lexeme.text
  match lexeme.reading with
  | .token token =>
      { state := { pass with cursor, tokens := pass.tokens + 1 }
        reporter
        events := [.scanned cursor.line token] }
  | .fault fault =>
      let errors := pass.errors + 1
      let delivery := reporter.report errors cursor fault.message
      { state := { pass with cursor, errors }
        reporter := delivery.reporter
        output := delivery.stored
        refusal? := delivery.refusal? }
  | .endOfText => .still pass reporter

/-- Go to the next line. -/
def nextLine (pass : Pass) : Pass :=
  { pass with cursor := pass.cursor.nextLine }

/-- Read the lexemes of a line. -/
def readLine (line : Bytes) : Work Pass := fun pass reporter =>
  Progress.forEach readLexeme (lexemes line) pass.nextLine reporter

/-- Read lines in order. -/
def readLines (lines : List Bytes) : Work Pass :=
  Progress.forEach readLine lines

/-- The pass at the end of an input. -/
def finish (pass : Pass) : Pass :=
  { pass with cursor := pass.cursor.clearText }

/-- The status of a pass: whether it ever reported an error. -/
def status (pass : Pass) : Int :=
  if pass.errors = 0 then 0 else 1

/-- Read an input to its end, as far as neither a report nor the input is
refused. -/
def parse : Parser Pass := fun pass reporter input =>
  let progress := readLines input.lines pass reporter
  match progress.refusal?.or input.refusal? with
  | some refusal =>
      { state := progress.state
        reporter := progress.reporter
        output := progress.output
        events := progress.events
        result := .error refusal }
  | none =>
      let finished := progress.state.finish
      { state := finished
        reporter := progress.reporter
        output := progress.output
        events := progress.events ++
          [.passFinished finished.cursor.line finished.tokens finished.errors]
        result := .ok finished.status }

@[simp]
theorem readLines_nil (pass : Pass) (reporter : Reporter) :
    readLines [] pass reporter = .still pass reporter :=
  rfl

@[simp]
theorem readLines_cons (line : Bytes) (lines : List Bytes) (pass : Pass) (reporter : Reporter) :
    readLines (line :: lines) pass reporter =
      (readLine line pass reporter).andThen (readLines lines) :=
  rfl

end Pass

end MinBasic.Check
