import MinBasic.Proofs.Check.Moves
import MinBasic.Proofs.Text.Cut

/-!
# What a token pass writes

On a stream that takes everything, a token pass is a function of the marks of
its input.  It counts the tokens and the faults among them, and it writes one
report for every fault, in order: numbered on from the errors counted before,
stamped with the line of the fault, and quoting the fault's own text.
-/

namespace MinBasic.Check

open Channel Diagnostic Lexical
open Text.Ascii (nul newline)

/-! ## Counts, reports and events of marks -/

/-- The lexemes of a text with the numbers of their lines, from 1. -/
def marks (content : Bytes) : List Mark :=
  ((Text.lines content).zipIdx 1).flatMap fun numbered =>
    (lexemes numbered.1).map (Mark.mk numbered.2)

/-- The faults among marks. -/
def findings (marks : List Mark) : List Finding :=
  marks.filterMap Mark.finding?

/-- The tokens among marks, with the numbers of their lines. -/
def tokensOf (marks : List Mark) : List (Nat × Token) :=
  marks.filterMap Mark.token?

/-- The reports of faults, for a pass that had counted `errors` and stood on
`line` before. -/
def reports (source? : Option String) (line : Int) (errors : Nat) (found : List Finding) :
    List Report :=
  (found.zipIdx (errors + 1)).map fun numbered =>
    Report.ofCursor numbered.2 source? ⟨line + numbered.1.line, numbered.1.text⟩
      numbered.1.fault.message

/-- The lines that report faults. -/
def reportLines (source? : Option String) (line : Int) (errors : Nat) (found : List Finding) :
    Bytes :=
  (reports source? line errors found).flatMap Report.render

/-- The events of tokens. -/
def scanEvents (line : Int) (scanned : List (Nat × Token)) : List Event :=
  scanned.map fun token => .scanned (line + token.1) token.2

@[simp]
theorem findings_nil : findings [] = [] :=
  rfl

@[simp]
theorem tokensOf_nil : tokensOf [] = [] :=
  rfl

theorem findings_append (first second : List Mark) :
    findings (first ++ second) = findings first ++ findings second :=
  List.filterMap_append

theorem tokensOf_append (first second : List Mark) :
    tokensOf (first ++ second) = tokensOf first ++ tokensOf second :=
  List.filterMap_append

theorem findings_cons_fault {lexeme : Lexeme} {fault : Fault}
    (isFault : lexeme.reading = .fault fault) (line : Nat) (marks : List Mark) :
    findings (⟨line, lexeme⟩ :: marks) = ⟨line, fault, lexeme.text⟩ :: findings marks := by
  apply List.filterMap_cons_some
  rw [Mark.finding?, isFault]

theorem tokensOf_cons_fault {lexeme : Lexeme} {fault : Fault}
    (isFault : lexeme.reading = .fault fault) (line : Nat) (marks : List Mark) :
    tokensOf (⟨line, lexeme⟩ :: marks) = tokensOf marks := by
  apply List.filterMap_cons_none
  rw [Mark.token?, isFault]

theorem reports_append (source? : Option String) (line : Int) (errors : Nat)
    (first second : List Finding) :
    reports source? line errors (first ++ second) =
      reports source? line errors first ++
        reports source? line (errors + first.length) second := by
  rw [reports, List.zipIdx_append, List.map_append, Nat.add_right_comm]
  rfl

@[simp]
theorem length_reports (source? : Option String) (line : Int) (errors : Nat)
    (found : List Finding) : (reports source? line errors found).length = found.length := by
  rw [reports, List.length_map, List.length_zipIdx]

theorem reportLines_append (source? : Option String) (line : Int) (errors : Nat)
    (first second : List Finding) :
    reportLines source? line errors (first ++ second) =
      reportLines source? line errors first ++
        reportLines source? line (errors + first.length) second := by
  rw [reportLines, reports_append, List.flatMap_append]
  rfl

@[simp]
theorem reportLines_singleton (source? : Option String) (line : Int) (errors : Nat)
    (finding : Finding) :
    reportLines source? line errors [finding] =
      (Report.ofCursor (errors + 1) source? ⟨line + finding.line, finding.text⟩
        finding.fault.message).render :=
  List.append_nil _

theorem scanEvents_append (line : Int) (first second : List (Nat × Token)) :
    scanEvents line (first ++ second) = scanEvents line first ++ scanEvents line second :=
  List.map_append

/-! ## Moves on a stream that takes everything -/

/-- A pass that came upon marks and left its cursor somewhere. -/
def Pass.tally (pass : Pass) (marks : List Mark) (cursor : Cursor) : Pass where
  errors := pass.errors + (findings marks).length
  cursor := cursor
  tokens := pass.tokens + (tokensOf marks).length

/-- What moves do that come upon marks, when nothing is refused. -/
def freely (source? : Option String) (line : Int) (pass : Pass) (marks : List Mark)
    (cursor : Cursor) : Progress Pass where
  state := pass.tally marks cursor
  reporter := ⟨.unlimited, source?⟩
  output := reportLines source? line pass.errors (findings marks)
  events := scanEvents line (tokensOf marks)

theorem Pass.tally_tally (pass : Pass) (first second : List Mark) (between cursor : Cursor) :
    (pass.tally first between).tally second cursor = pass.tally (first ++ second) cursor := by
  simp only [tally, findings_append, tokensOf_append, List.length_append, Nat.add_assoc]

/-- Coming upon marks in two stretches is coming upon them in one. -/
theorem freely_andThen {source? : Option String} {line : Int} {pass : Pass}
    {first second : List Mark} {between cursor : Cursor} {more : Work Pass}
    (later : more (pass.tally first between) ⟨.unlimited, source?⟩ =
      freely source? line (pass.tally first between) second cursor) :
    (freely source? line pass first between).andThen more =
      freely source? line pass (first ++ second) cursor := by
  have unrefused : (freely source? line pass first between).andThen more =
      { more (pass.tally first between) ⟨.unlimited, source?⟩ with
        output := reportLines source? line pass.errors (findings first) ++
          (more (pass.tally first between) ⟨.unlimited, source?⟩).output
        events := scanEvents line (tokensOf first) ++
          (more (pass.tally first between) ⟨.unlimited, source?⟩).events } :=
    rfl
  rw [unrefused, later]
  simp only [freely, Pass.tally_tally, findings_append, tokensOf_append, reportLines_append,
    scanEvents_append]
  rfl

/-- Coming upon a fault after other marks counts and reports it and notes
nothing. -/
theorem freely_concat_fault (source? : Option String) (line : Int) (pass : Pass)
    (before : List Mark) (number : Nat) {lexeme : Lexeme} {fault : Fault}
    (isFault : lexeme.reading = .fault fault) (cursor : Cursor) :
    freely source? line pass (before ++ [⟨number, lexeme⟩]) cursor =
      { state :=
          { errors := pass.errors + ((findings before).length + 1)
            cursor := cursor
            tokens := pass.tokens + (tokensOf before).length }
        reporter := ⟨.unlimited, source?⟩
        output := reportLines source? line pass.errors
          (findings before ++ [⟨number, fault, lexeme.text⟩])
        events := scanEvents line (tokensOf before) } := by
  rw [freely, Pass.tally, findings_append, findings_cons_fault isFault, tokensOf_append,
    tokensOf_cons_fault isFault, findings_nil, tokensOf_nil, List.append_nil,
    List.length_append, List.length_singleton]

/-- Reading a fault leaves the cursor at its line and on its text. -/
theorem Pass.move_fault_unlimited (source? : Option String) (line : Int) {lexeme : Lexeme}
    {fault : Fault} (isFault : lexeme.reading = .fault fault) (pass : Pass) {passed : Nat}
    (here : pass.cursor.line = line + passed) :
    Pass.move (.read lexeme) pass ⟨.unlimited, source?⟩ =
      freely source? line pass [⟨passed, lexeme⟩] ⟨line + passed, lexeme.text⟩ := by
  rcases pass with ⟨errors, ⟨_, text⟩, tokens⟩
  rcases lexeme with ⟨reading, start, covered⟩
  obtain rfl : _ = line + passed := here
  obtain rfl : reading = .fault fault := isFault
  change _ = Progress.mk _ _ (reportLines source? line errors [⟨passed, fault, covered⟩]) _ _
  rw [reportLines_singleton]
  rfl

/-- One move writes, counts and notes what its mark tells. -/
theorem Pass.move_unlimited (source? : Option String) (line : Int) (move : Move) (pass : Pass)
    {passed : Nat} (here : pass.cursor.line = line + passed) :
    ∃ text, Pass.move move pass ⟨.unlimited, source?⟩ =
      freely source? line pass (marksFrom passed [move])
        ⟨line + (passed + linesPassed [move] : Nat), text⟩ := by
  cases move with
  | nextLine =>
      refine ⟨pass.cursor.text, ?_⟩
      rw [linesPassed_nextLine, Int.natCast_add, ← Int.add_assoc, ← here]
      rfl
  | read lexeme =>
      rcases pass with ⟨errors, ⟨_, text⟩, tokens⟩
      obtain rfl : _ = line + passed := here
      rcases lexeme with ⟨token | fault | _, start, covered⟩
      · exact ⟨covered, rfl⟩
      · exact ⟨covered, move_fault_unlimited source? line rfl _ rfl⟩
      · exact ⟨text, rfl⟩

/-- Moves write, count and note what their marks tell. -/
theorem forEach_move_unlimited (source? : Option String) (line : Int) (moves : List Move)
    (pass : Pass) {passed : Nat} (here : pass.cursor.line = line + passed) :
    ∃ text, Progress.forEach Pass.move moves pass ⟨.unlimited, source?⟩ =
      freely source? line pass (marksFrom passed moves)
        ⟨line + (passed + linesPassed moves : Nat), text⟩ := by
  -- The pass knows only its line; the lines passed are carried beside it.
  induction moves generalizing pass passed with
  | nil =>
      refine ⟨pass.cursor.text, ?_⟩
      rw [linesPassed_nil, Nat.add_zero, ← here]
      rfl
  | cons move moves ih =>
      obtain ⟨between, first⟩ := pass.move_unlimited source? line move here
      obtain ⟨text, second⟩ := ih (pass.tally (marksFrom passed [move])
        ⟨line + (passed + linesPassed [move] : Nat), between⟩) rfl
      refine ⟨text, ?_⟩
      have marksSplit : marksFrom passed (move :: moves) =
          marksFrom passed [move] ++ marksFrom (passed + linesPassed [move]) moves :=
        marksFrom_append passed [move] moves
      have linesSplit : linesPassed (move :: moves) = linesPassed [move] + linesPassed moves :=
        linesPassed_append [move] moves
      rw [Progress.forEach_cons, first, marksSplit, linesSplit, ← Nat.add_assoc]
      exact freely_andThen second

/-- Moves that end with a fault leave the cursor at its line and on its text. -/
theorem forEach_move_fault (source? : Option String) (line : Int) (moves : List Move)
    {lexeme : Lexeme} {fault : Fault} (isFault : lexeme.reading = .fault fault) (pass : Pass)
    {passed : Nat} (here : pass.cursor.line = line + passed) :
    Progress.forEach Pass.move (moves ++ [.read lexeme]) pass ⟨.unlimited, source?⟩ =
      freely source? line pass (marksFrom passed moves ++ [⟨passed + linesPassed moves, lexeme⟩])
        ⟨line + (passed + linesPassed moves : Nat), lexeme.text⟩ := by
  obtain ⟨text, reached⟩ := forEach_move_unlimited source? line moves pass here
  rw [Progress.forEach_append, reached]
  apply freely_andThen
  rw [Progress.forEach_cons, Pass.move_fault_unlimited source? line isFault _ rfl]
  exact Progress.andThen_still _

/-! ## Whole inputs -/

/-- The marks of an input are those of the moves over its lines. -/
theorem marksFrom_moves_lines (content : Bytes) :
    marksFrom 0 (moves (Text.lines content)) = marks content :=
  marksFrom_moves 0 (Text.lines content)

theorem marks_of_moves_split {content : Bytes} {before after : List Move} {lexeme : Lexeme}
    (split : moves (Text.lines content) = before ++ .read lexeme :: after) :
    marks content = marksFrom 0 before ++
      ⟨linesPassed before, lexeme⟩ :: marksFrom (linesPassed before) after := by
  rw [← marksFrom_moves_lines, split, marksFrom_append, marksFrom, Nat.zero_add]

/-- Reading lines after `passed` earlier ones writes, counts and notes what the
marks of their moves tell. -/
theorem Pass.readLines_unlimited (source? : Option String) (line : Int) (lines : List Bytes)
    (pass : Pass) {passed : Nat} (here : pass.cursor.line = line + passed) :
    ∃ text, Pass.readLines lines pass ⟨.unlimited, source?⟩ =
      freely source? line pass (marksFrom passed (moves lines))
        ⟨line + (passed + lines.length : Nat), text⟩ := by
  obtain ⟨text, run⟩ := forEach_move_unlimited source? line (moves lines) pass here
  refine ⟨text, ?_⟩
  rw [readLines_eq_forEach_moves, run, linesPassed_moves]

/-- A pass over an input after `passed` earlier lines, told by the marks of the
moves over its lines. -/
theorem Pass.parse_eq_tally_from (source? : Option String) (line : Int) (content : Bytes)
    (pass : Pass) {passed : Nat} (here : pass.cursor.line = line + passed) :
    pass.parse ⟨.unlimited, source?⟩ ⟨content, none⟩ =
      let found := marksFrom passed (moves (Text.lines content))
      let after := pass.tally found ⟨line + (passed + (Text.lines content).length : Nat), []⟩
      { state := after
        reporter := ⟨.unlimited, source?⟩
        output := reportLines source? line pass.errors (findings found)
        events := scanEvents line (tokensOf found) ++
          [.passFinished after.cursor.line after.tokens after.errors]
        result := .ok after.status } := by
  obtain ⟨text, run⟩ := readLines_unlimited source? line (Text.lines content) pass here
  rw [parse, Input.lines_of_content, run]
  rfl

/-- A pass over an input, told by the marks of the input. -/
theorem Pass.parse_eq_tally (source? : Option String) (content : Bytes) (pass : Pass) :
    pass.parse ⟨.unlimited, source?⟩ ⟨content, none⟩ =
      let after := pass.tally (marks content)
        ⟨pass.cursor.line + (Text.lines content).length, []⟩
      { state := after
        reporter := ⟨.unlimited, source?⟩
        output := reportLines source? pass.cursor.line pass.errors (findings (marks content))
        events := scanEvents pass.cursor.line (tokensOf (marks content)) ++
          [.passFinished after.cursor.line after.tokens after.errors]
        result := .ok after.status } := by
  have here : pass.cursor.line = pass.cursor.line + (0 : Nat) := (Int.add_zero _).symm
  rw [parse_eq_tally_from source? pass.cursor.line content pass here, marksFrom_moves_lines,
    Nat.zero_add]

/-- The lines of marks are numbered from 1. -/
theorem line_pos_of_mem_marks {content : Bytes} {mark : Mark} (member : mark ∈ marks content) :
    0 < mark.line := by
  obtain ⟨numbered, numberedMem, markMem⟩ := List.mem_flatMap.mp member
  obtain ⟨lexeme, lexemeMem, rfl⟩ := List.mem_map.mp markMem
  exact (List.mem_zipIdx numberedMem).1

theorem line_pos_of_mem_findings {content : Bytes} {finding : Finding}
    (member : finding ∈ findings (marks content)) : 0 < finding.line := by
  obtain ⟨mark, markMem, found⟩ := List.mem_filterMap.mp member
  obtain ⟨-, line_eq, -⟩ := Mark.finding?_eq_some_iff.mp found
  rw [← line_eq]
  exact line_pos_of_mem_marks markMem

/-- The report of a fault: its number, the shown name of the source, its line
after `line` earlier ones, its text up to a NUL, a newline or 20 bytes, and its
message. -/
def Finding.report (finding : Finding) (number : Nat) (source? : Option String) (line : Nat) :
    Report where
  number := number
  file? := source?.bind shownName?
  line? := some (line + finding.line)
  excerpt := (finding.text.takeWhile fun byte => byte ≠ nul && byte ≠ newline).take 20
  message := finding.fault.message

theorem Finding.ofCursor_eq_report {finding : Finding} (pos : 0 < finding.line) (number : Nat)
    (source? : Option String) (line : Nat) :
    Report.ofCursor number source? ⟨(line : Int) + finding.line, finding.text⟩
      finding.fault.message = finding.report number source? line := by
  have shown : 0 < (line : Int) + finding.line := by omega
  have line_eq : ((line : Int) + finding.line).toNat = line + finding.line := by omega
  rw [Report.ofCursor, Cursor.excerpt, Cursor.excerptLimit, ← List.take_takeWhile, if_pos shown,
    line_eq]
  rfl

/-- The reports of an input, after `errors` reported errors and `line` earlier
lines: one for every fault, in order. -/
def inputReports (source? : Option String) (line errors : Nat) (content : Bytes) :
    List Report :=
  ((findings (marks content)).zipIdx (errors + 1)).map fun numbered =>
    numbered.1.report numbered.2 source? line

theorem reports_marks (source? : Option String) (line errors : Nat) (content : Bytes) :
    reports source? line errors (findings (marks content)) =
      inputReports source? line errors content := by
  apply List.map_congr_left
  intro numbered member
  exact Finding.ofCursor_eq_report
    (line_pos_of_mem_findings (List.fst_mem_of_mem_zipIdx member)) numbered.2 source? line

/-- The closed form of a token pass on a stream that takes everything.  The input
is cut into lines; the pass writes one report for every fault of a line, in line
order and within a line in reading order, and the state after it and the status
are told by the numbers of lines, faults and tokens. -/
theorem Pass.parse_unlimited (errors line tokens : Nat) (under : Bytes)
    (source? : Option String) (content : Bytes) :
    ∃ lines, Text.CutInto content lines ∧
      marks content = ((lines.zipIdx 1).flatMap fun numbered =>
        (lexemes numbered.1).map (Mark.mk numbered.2)) ∧
      Pass.parse ⟨errors, ⟨line, under⟩, tokens⟩ ⟨.unlimited, source?⟩ ⟨content, none⟩ =
        { state :=
            { errors := errors + (findings (marks content)).length
              cursor := ⟨(line + lines.length : Nat), []⟩
              tokens := tokens + (tokensOf (marks content)).length }
          reporter := ⟨.unlimited, source?⟩
          output := (inputReports source? line errors content).flatMap Report.render
          events := scanEvents line (tokensOf (marks content)) ++
            [.passFinished (line + lines.length : Nat)
              (tokens + (tokensOf (marks content)).length)
              (errors + (findings (marks content)).length)]
          result := .ok (if errors + (findings (marks content)).length = 0 then 0 else 1) } := by
  exists Text.lines content
  constructor
  · exact Text.cutInto_lines content
  constructor
  · rfl
  · rw [parse_eq_tally, ← reports_marks]
    rfl

/-- Faults are numbered through, and stamped with their own lines. -/
example :
    (Pass.parse {} ⟨.unlimited, none⟩ ⟨Text.Utf8.encode "10 ?\n\nLETT", none⟩).output =
      Text.Utf8.encode ("[error 1] line 1 near \"?\": unexpected character\n" ++
        "[error 2] line 3 near \"LETT\": unrecognized word\n") := by
  decide +kernel

end MinBasic.Check
