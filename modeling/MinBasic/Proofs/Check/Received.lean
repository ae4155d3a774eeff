import MinBasic.Proofs.Check.Clipped
import MinBasic.Proofs.Check.Occurrence
import MinBasic.Proofs.Text.Complete

/-!
# Runs over any input and on any stream

An input need not be read to its end, and a stream need not take everything.  A
run does over an input what it does over the lines that can be read from it, and
a refusal of the input ends it behind them.  On a stream it writes as if its
output were written there at once, and a refused write ends it first.
-/

namespace MinBasic.Channel.Input

open Lexical Text

/-- The bytes of the lines that can be read from an input. -/
def received (input : Input) : Bytes :=
  input.lines.flatten

/-- All of an input that just ends can be read. -/
theorem received_of_ended {input : Input} (ended : input.refusal? = none) :
    input.received = input.content := by
  rw [received, lines, ended, flatten_lines]

/-- What can be read from an input that breaks off is the longest prefix of
complete lines of what it delivers. -/
theorem isLongestPrefix_received {input : Input} {refusal : Refusal}
    (broken : input.refusal? = some refusal) :
    IsLongestPrefix completeTexts input.content input.received ∧
      Text.lines input.received = input.lines := by
  obtain ⟨whole, tail, complete, noNewline, split⟩ := exists_complete_append input.content
  have lines_eq : input.lines = Text.lines whole := by
    rw [lines, broken, split]
    exact filter_isEnded_lines complete noNewline
  rw [received, lines_eq, flatten_lines, split]
  exact ⟨isLongestPrefix_completeTexts complete noNewline, rfl⟩

/-- What can be read from an input is cut into the lines that can be read. -/
theorem lines_received (input : Input) : Text.lines input.received = input.lines := by
  cases broken : input.refusal? with
  | some refusal => exact (isLongestPrefix_received broken).2
  | none => rw [received_of_ended broken, lines, broken]

end MinBasic.Channel.Input

namespace MinBasic.Check

open Channel Diagnostic Lexical

namespace Pass

/-- A run over any input writes and counts as over the lines that can be read, and
ends as that run does unless the input is refused behind them. -/
theorem parse_received (pass : Pass) (reporter : Reporter) (input : Input) :
    let parsed := pass.parse reporter input
    let whole := pass.parse reporter ⟨input.received, none⟩
    parsed.output = whole.output ∧ parsed.state.errors = whole.state.errors ∧
      parsed.result = match whole.result with
        | .ok status => input.refusal?.elim (.ok status) .error
        | .error cause => .error cause := by
  have readWhole : readLines (Input.lines ⟨input.received, none⟩) pass reporter =
      readLines input.lines pass reporter := by
    rw [Input.lines_of_content, input.lines_received]
  generalize read : readLines input.lines pass reporter = progress at readWhole
  cases refused : progress.refusal? with
  | some cause =>
      have stopped (last? : Option Refusal) : progress.refusal?.or last? = some cause := by
        rw [refused, Option.some_or]
      rw [parse_of_stopped readWhole (stopped _), parse_of_stopped read (stopped _)]
      exact ⟨rfl, rfl, rfl⟩
  | none =>
      have finished : progress.refusal?.or none = none := by rw [refused, Option.none_or]
      rw [parse_of_finished readWhole finished]
      cases ending : input.refusal? with
      | some refusal =>
          have stopped : progress.refusal?.or input.refusal? = some refusal := by
            rw [refused, ending, Option.none_or]
          rw [parse_of_stopped read stopped]
          exact ⟨rfl, rfl, rfl⟩
      | none =>
          rw [parse_of_finished read (ending ▸ finished)]
          exact ⟨rfl, rfl, rfl⟩

/-- A run over any input reports the faults of what can be read from it. -/
theorem parse_reports (errors line tokens : Nat) (under : Bytes) (source? : Option String)
    (input : Input) :
    let parsed := Pass.parse ⟨errors, ⟨line, under⟩, tokens⟩ ⟨.unlimited, source?⟩ input
    parsed.output = (inputReports source? line errors input.received).flatMap Report.render ∧
      parsed.state.errors = errors + (findings (marks input.received)).length ∧
      parsed.result = input.refusal?.elim
        (.ok (if errors + (findings (marks input.received)).length = 0 then 0 else 1)) .error := by
  intro parsed
  obtain ⟨output_eq, errors_eq, result_eq⟩ :=
    Pass.parse_received ⟨errors, ⟨line, under⟩, tokens⟩ ⟨.unlimited, source?⟩ input
  rw [parse_eq_tally] at output_eq errors_eq result_eq
  rw [← reports_marks]
  exact ⟨output_eq, errors_eq, result_eq⟩

/-- A run on a stream writes there what it writes to a stream that takes
everything, at once, and ends as there unless that write is refused. -/
theorem parse_eq_write (pass : Pass) (sink : Sink) (source? : Option String) (input : Input) :
    let free := pass.parse ⟨.unlimited, source?⟩ input
    let parsed := pass.parse ⟨sink, source?⟩ input
    let written := sink.write free.output
    parsed.output = written.stored ∧
      parsed.result = written.refusal?.elim free.result .error := by
  intro free parsed written
  cases sink with
  | unlimited => exact ⟨rfl, rfl⟩
  | limited room refusal =>
      obtain ⟨freeOutput, -, freeResult⟩ := pass.parse_received ⟨.unlimited, source?⟩ input
      obtain ⟨output_eq, -, result_eq⟩ :=
        pass.parse_received ⟨.limited room refusal, source?⟩ input
      have freeOutput : free.output = _ := freeOutput
      have freeResult : free.result = _ := freeResult
      by_cases fits : free.output.length ≤ room
      · have accepted : written.refusal? = none := if_pos fits
        rw [freeOutput] at fits
        obtain ⟨reporter, same⟩ := parse_limited_of_fits refusal fits
        rw [same] at output_eq result_eq
        rw [accepted, Sink.stored_eq_of_not_refused accepted, Option.elim_none]
        exact ⟨output_eq.trans freeOutput.symm, result_eq.trans freeResult.symm⟩
      · have refused : written.refusal? = some refusal := if_neg fits
        rw [freeOutput, Nat.not_le] at fits
        obtain ⟨before, mark, cutShort⟩ := cutShort_of_overflow refusal fits
        rw [cutShort.result_eq] at result_eq
        rw [output_parse, Progress.output_forEach_limited move_clips, ← output_parse,
          ← freeOutput] at output_eq
        rw [refused, Option.elim_some]
        exact ⟨output_eq, result_eq⟩

end Pass

end MinBasic.Check
