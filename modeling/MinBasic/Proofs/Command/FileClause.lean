import MinBasic.Proofs.Check.Alike
import MinBasic.Proofs.Check.Decodable
import MinBasic.Proofs.Command.EndToEnd
import MinBasic.Proofs.Diagnostic.ReportLine

/-!
# The file clause is put in, and nothing else changes

A run that names its source does what it does without the name, and writes what it writes
without it, with the same bytes put in behind the number of every report.  A report of a
token pass always has a line clause, so the name is always followed by a comma, and what
stands behind it is not changed by it.
-/

namespace MinBasic.Diagnostic

open Text
open Text.Ascii (newline)

/-! ## Reports with and without a name -/

/-- A file clause with the comma in front of a line clause, or nothing for a name that is
not displayed. -/
def fileMark (name? : Option Bytes) : Bytes :=
  name?.elim [] fun name => Utf8.encode "file " ++ name ++ Utf8.encode ", "

namespace Report

/-- The number with which the line of a report starts. -/
def opening (report : Report) : Bytes :=
  Utf8.encode "[error " ++ decimal report.number ++ Utf8.encode "] "

/-- What follows the number in the line of a report. -/
def body (report : Report) : Bytes :=
  report.heading ++ Utf8.encode report.message ++ [newline]

theorem opening_append_body (report : Report) : report.opening ++ report.body = report.render := by
  simp only [render, opening, body, List.append_assoc]

/-- The same report with a displayed name. -/
def withName (report : Report) (name? : Option Bytes) : Report :=
  { report with file? := name? }

/-- A name is displayed in front of the other clauses. -/
theorem heading_withName {report : Report} {line : Nat} (noFile : report.file? = none)
    (hasLine : report.line? = some line) (name? : Option Bytes) :
    (report.withName name?).heading = fileMark name? ++ report.heading := by
  obtain ⟨number, file?, line?, excerpt, message⟩ := report
  obtain rfl : file? = none := noFile
  obtain rfl : line? = some line := hasLine
  cases name? with
  | none => rfl
  | some name =>
      simp only [heading, position?, fileClause?, lineClause?, nearClause?, withName, fileMark]
      rcases eq_or_ne excerpt [] with rfl | nonempty
      · simp
      · simp [nonempty]

theorem render_withName {report : Report} {line : Nat} (noFile : report.file? = none)
    (hasLine : report.line? = some line) (name? : Option Bytes) :
    (report.withName name?).render = report.opening ++ (fileMark name? ++ report.body) := by
  rw [← opening_append_body, body, heading_withName noFile hasLine, body]
  simp only [List.append_assoc]
  rfl

end Report

end MinBasic.Diagnostic

namespace MinBasic.Check

open Channel Diagnostic

/-! ## Passes with and without a name -/

/-- The reports of an input for a source are those without it, with its name. -/
theorem inputReports_eq_map_withName (source? : Option String) (line errors : Nat)
    (content : Bytes) :
    inputReports source? line errors content =
      (inputReports none line errors content).map fun report =>
        report.withName (source?.bind shownName?) := by
  rw [inputReports, inputReports, List.map_map]
  rfl

/-- The name of a source is put in behind the number of every report. -/
theorem flatMap_render_inputReports {source? : Option String} {name? : Option Bytes}
    (displays : Displays source? name?) (line errors : Nat) (content : Bytes) :
    (inputReports source? line errors content).flatMap Report.render =
      (inputReports none line errors content).flatMap fun report =>
        report.opening ++ (fileMark name? ++ report.body) := by
  rw [inputReports_eq_map_withName, ← displays_iff.mp displays, List.flatMap_map]
  apply List.flatMap_congr
  intro report member
  obtain ⟨noFile, ⟨line, hasLine⟩, -⟩ := isPlain_of_mem_inputReports member
  exact Report.render_withName noFile hasLine name?

/-- A run that did what another run did, but for its output and its reporter. -/
structure Parsed.SameButOutput (parsed parsed' : Parsed Pass) : Prop where
  result : parsed.result = parsed'.result
  state : parsed.state = parsed'.state
  events : parsed.events = parsed'.events

/-- The name of a source is seen by the reports of a pass and by nothing else. -/
theorem Pass.sameButOutput_parse (pass : Pass) (source? source?' : Option String)
    (content : Bytes) :
    (pass.parse ⟨.unlimited, source?⟩ ⟨content, none⟩).SameButOutput
      (pass.parse ⟨.unlimited, source?'⟩ ⟨content, none⟩) := by
  rw [parse_eq_tally, parse_eq_tally]
  exact ⟨rfl, rfl, rfl⟩

end MinBasic.Check

namespace MinBasic.Command

open Channel Check Diagnostic

/-! ## Runs with the file clause on and off -/

/-- Runs of a parser that do the same but for their output are concluded in the same way. -/
theorem driveOver_congr {parse : Parser Pass} {pass : Pass} {settings settings' : Settings}
    {host : Host} {invocation : Invocation} {input : Input} {parsed parsed' : Parsed Pass}
    (isParsed : parse pass (reporter settings host invocation.source?) input = parsed)
    (isParsed' : parse pass (reporter settings' host invocation.source?) input = parsed')
    (same : parsed.SameButOutput parsed') :
    let conclusion := driveOver parse pass settings host invocation input
    let conclusion' := driveOver parse pass settings' host invocation input
    conclusion.result = conclusion'.result ∧ conclusion.state = conclusion'.state ∧
      conclusion.events = conclusion'.events ∧ conclusion.output = parsed.output ∧
      conclusion'.output = parsed'.output := by
  simp only [driveOver, isParsed, isParsed', same.result, same.state, same.events]
  cases parsed'.result with
  | ok status => exact ⟨rfl, rfl, rfl, rfl, rfl⟩
  | error refusal => exact ⟨rfl, rfl, rfl, rfl, rfl⟩

/-- Without a source there is no name to show. -/
theorem reporter_stdin (settings : Settings) (host : Host) :
    reporter settings host none = ⟨host.sink settings.target, none⟩ := by
  rw [reporter, ite_self]

/-- The standard input never gets a file clause. -/
theorem drive_stdin {σ : Type} (parse : Parser σ) (state : σ) (target : Target) (host : Host)
    {arguments : List String} (noSource : arguments.tail = []) :
    let on := drive parse state ⟨target, true⟩ host arguments
    let off := drive parse state ⟨target, false⟩ host arguments
    on = off ∧ off.output = (parse state ⟨host.sink target, none⟩ host.stdin).output := by
  intro on off
  have driven (settings : Settings) : drive parse state settings host arguments =
      driveOver parse state settings host ⟨arguments.head?.getD defaultProgram, none⟩
        host.stdin := by
    rw [drive_eq_drive_cons, noSource, Opens.stdin.drive_eq]
  constructor
  · unfold on off
    rw [driven, driven]
    simp only [driveOver, reporter_stdin]
  · unfold off
    rw [driven]
    exact (driveOver_eq ..).1

/-- The file clause is put in behind the number of every report, and nothing else depends
on it.  A pass that names its source ends with the same status, in the same state and with
the same events as one that does not, and writes the same reports with the clause put in;
nothing is put in for an empty name, in quotes or not.  So do two runs of the program over
an opened source with the clause switched on and off.  On the standard input the switch does
nothing. -/
theorem fileClause_inserted (errors line tokens : Nat) (under : Bytes) (name : String)
    (content : Bytes) :
    let pass : Pass := ⟨errors, ⟨line, under⟩, tokens⟩
    let plain := pass.parse ⟨.unlimited, none⟩ ⟨content, none⟩
    let named := pass.parse ⟨.unlimited, some name⟩ ⟨content, none⟩
    let reported := inputReports none line errors content
    (∃ status, named.result = .ok status ∧ plain.result = .ok status) ∧
    (named.state = plain.state ∧ named.events = plain.events) ∧
    (∃ name?, Displays (some name) name? ∧
      plain.output = (reported.flatMap fun report => report.opening ++ report.body) ∧
      named.output =
        reported.flatMap fun report => report.opening ++ (fileMark name? ++ report.body)) ∧
    (name = "" ∨ name = "\"\"" → named.output = plain.output) ∧
    (∀ (host : Host) (arguments : List String) (target : Target),
      Opens host arguments.tail (some name) ⟨content, none⟩ → host.sink target = .unlimited →
      let on := drive Pass.parse pass ⟨target, true⟩ host arguments
      let off := drive Pass.parse pass ⟨target, false⟩ host arguments
      on.result = off.result ∧ on.state = off.state ∧ on.events = off.events ∧
        on.output = named.output ∧ off.output = plain.output) ∧
    ∀ {σ : Type} (parse : Parser σ) (state : σ) (host : Host) (arguments : List String)
      (target : Target), arguments.tail = [] →
      let on := drive parse state ⟨target, true⟩ host arguments
      let off := drive parse state ⟨target, false⟩ host arguments
      on = off ∧ off.output = (parse state ⟨host.sink target, none⟩ host.stdin).output := by
  intro pass plain named reported
  have same : named.SameButOutput plain := pass.sameButOutput_parse (some name) none content
  have ended : plain.result = .ok plain.state.status := (pass.parse_eq_reports none content).1
  have output (source? : Option String) :
      (pass.parse ⟨.unlimited, source?⟩ ⟨content, none⟩).output =
        (inputReports source? line errors content).flatMap Report.render := by
    rw [← reports_marks]
    exact (pass.parse_eq_reports source? content).2
  have plainOutput : plain.output = reported.flatMap fun report => report.opening ++ report.body :=
    (output none).trans (flatMap_render_inputReports .unset line errors content)
  have namedOutput {name? : Option Bytes} (displays : Displays (some name) name?) :
      named.output =
        reported.flatMap fun report => report.opening ++ (fileMark name? ++ report.body) :=
    (output (some name)).trans (flatMap_render_inputReports displays line errors content)
  refine ⟨⟨_, same.result.trans ended, ended⟩, ⟨same.state, same.events⟩, ?_, ?_, ?_, ?_⟩
  · exact ⟨_, displays_iff.mpr rfl, plainOutput, namedOutput (displays_iff.mpr rfl)⟩
  · intro hidden
    have displays : Displays (some name) none := by
      rcases hidden with rfl | rfl
      · exact .empty
      · exact .emptyQuotes
    rw [plainOutput, namedOutput displays]
    rfl
  · intro host arguments target opens unlimited on off
    have driven (settings : Settings) : drive Pass.parse pass settings host arguments =
        driveOver Pass.parse pass settings host ⟨arguments.head?.getD defaultProgram, some name⟩
          ⟨content, none⟩ := by
      rw [drive_eq_drive_cons, opens.drive_eq]
    have isNamed : Pass.parse pass (reporter ⟨target, true⟩ host (some name)) ⟨content, none⟩ =
        named := by
      rw [reporter, unlimited]
      rfl
    have isPlain : Pass.parse pass (reporter ⟨target, false⟩ host (some name)) ⟨content, none⟩ =
        plain := by
      rw [reporter, unlimited]
      rfl
    unfold on off
    rw [driven, driven]
    exact driveOver_congr isNamed isPlain same
  · intro σ parse state host arguments target noSource
    exact drive_stdin parse state target host noSource

end MinBasic.Command
