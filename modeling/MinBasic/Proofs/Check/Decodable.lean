import MinBasic.Proofs.Check.Received
import MinBasic.Proofs.Diagnostic.Decoding
import MinBasic.Proofs.Lexical.Replacing

/-!
# Reading the output of a run back

Without the name of a source, what a token pass writes tells what it reported.
Its reports are read back from the bytes alone, although the quoted text is raw
input: it is cut before a newline, and a report is read from both ends.  The
quoted text is empty only where a NUL is at fault, since a fault starts with a
byte that is not blank, and no fault but that of the NUL itself starts with a
NUL.
-/

namespace MinBasic.Lexical

open Text.Ascii

/-! ## The text of a fault -/

/-- What is at fault at a NUL is the NUL alone. -/
theorem Spelling.eq_nil_of_nul {isFirst : Bool} {fault : Fault} {rest after : Bytes}
    (spelling : Spelling isFirst (.fault fault) (nul :: rest) after) : rest = [] := by
  generalize reading_eq : Reading.fault fault = reading at spelling
  generalize taken_eq : nul :: rest = taken at spelling
  cases spelling with
  | openString unclosed => cases (List.cons.inj taken_eq).1
  | unrecognized longest isLong unknown =>
      rw [← taken_eq] at longest
      have isLetter := mem_kstar_ofClass_iff.mp longest.mem nul List.mem_cons_self
      contradiction
  | unexpected noSymbol noComparison noQuote noNumeral noLetter longest =>
      obtain ⟨rfl, rfl⟩ := List.cons.inj taken_eq
      rwa [if_neg (by decide)] at longest
  | _ => cases reading_eq

/-- The text of a fault starts with a byte that is not blank, and ends there if
that is a NUL. -/
theorem exists_text_eq_cons_of_fault {text : Bytes} {lexeme : Lexeme} {fault : Fault}
    (member : lexeme ∈ lexemes text) (isFault : lexeme.reading = .fault fault) :
    ∃ byte rest, lexeme.text = byte :: rest ∧ isBlank byte = false ∧ (byte = nul → rest = []) := by
  obtain ⟨place, rfl, more⟩ := Place.exists_of_mem_lexemes member
  have noRemark := Place.noRemark_of_fault isFault
  obtain ⟨byte, rest, text_eq, notBlank⟩ := Place.exists_lexeme_text_eq_cons noRemark more
  refine ⟨byte, rest, text_eq, notBlank, ?_⟩
  rintro rfl
  have spelled := Place.spelling_lexeme noRemark
  rw [isFault, text_eq] at spelled
  exact spelled.eq_nil_of_nul

end MinBasic.Lexical

namespace MinBasic.Check

open Channel Diagnostic Lexical
open Text.Ascii (nul newline isBlank)

variable {content : Bytes} {finding : Finding}

/-- A finding is a lexeme of a line that is a fault. -/
theorem exists_lexeme_of_mem_findings (member : finding ∈ findings (marks content)) :
    ∃ line ∈ Text.lines content, ∃ lexeme ∈ lexemes line,
      lexeme.reading = .fault finding.fault ∧ lexeme.text = finding.text := by
  obtain ⟨mark, markMem, found⟩ := List.mem_filterMap.mp member
  obtain ⟨numbered, numberedMem, isMark⟩ := List.mem_flatMap.mp markMem
  obtain ⟨lexeme, lexemeMem, rfl⟩ := List.mem_map.mp isMark
  obtain ⟨isFault, -, text_eq⟩ := Mark.finding?_eq_some_iff.mp found
  exact ⟨numbered.1, List.fst_mem_of_mem_zipIdx numberedMem, lexeme, lexemeMem, isFault, text_eq⟩

/-- The quoted text is empty exactly where a NUL is at fault. -/
theorem Finding.excerpt_eq_nil_iff (member : finding ∈ findings (marks content)) (number : Nat)
    (source? : Option String) (line : Nat) :
    (finding.report number source? line).excerpt = [] ↔ finding.text = [nul] := by
  obtain ⟨_, _, lexeme, lexemeMem, isFault, text_eq⟩ := exists_lexeme_of_mem_findings member
  obtain ⟨byte, rest, cons_eq, notBlank, alone⟩ := exists_text_eq_cons_of_fault lexemeMem isFault
  have noNewline : byte ≠ newline := by
    rintro rfl
    contradiction
  rw [Finding.report, ← text_eq, cons_eq]
  by_cases isNul : byte = nul
  · simp [isNul, alone isNul]
  · simp [isNul, noNewline]

/-- The reports of an input without the name of a source can be read back. -/
theorem isPlain_of_mem_inputReports {line errors : Nat} {report : Report}
    (member : report ∈ inputReports none line errors content) : report.IsPlain := by
  obtain ⟨⟨finding, number⟩, -, rfl⟩ := List.mem_map.mp member
  refine ⟨rfl, ⟨_, rfl⟩, ?_, finding.fault, rfl⟩
  intro isQuoted
  have accepted := List.mem_takeWhile_imp (List.mem_of_mem_take isQuoted)
  simp at accepted

namespace Pass

/-- What a run without the name of a source wrote tells its reports. -/
theorem readAll?_output (errors line tokens : Nat) (under : Bytes) (input : Input) :
    Report.readAll?
        (Pass.parse ⟨errors, ⟨line, under⟩, tokens⟩ ⟨.unlimited, none⟩ input).output =
      some (inputReports none line errors input.received) := by
  rw [(parse_reports errors line tokens under none input).1]
  exact Report.readAll?_flatMap_render fun _ => isPlain_of_mem_inputReports

/-- The output of a run without the name of a source is one line for every fault,
and tells what was reported: its reports are read back from its bytes, so runs
that wrote the same reported the same.  A report quotes something, except exactly
where a NUL is at fault. -/
theorem output_decodable (errors line tokens : Nat) (under : Bytes) (input : Input) :
    let parsed := Pass.parse ⟨errors, ⟨line, under⟩, tokens⟩ ⟨.unlimited, none⟩ input
    let found := findings (marks input.received)
    let reported := inputReports none line errors input.received
    (parsed.output = reported.flatMap Report.render ∧ reported.length = found.length ∧
      parsed.state.errors = errors + found.length) ∧
    parsed.output.count newline = found.length ∧
    (parsed.output ≠ [] → Text.isEnded parsed.output = true) ∧
    Report.readAll? parsed.output = some reported ∧
    (∀ (errors' line' tokens' : Nat) (under' : Bytes) (input' : Input),
      (Pass.parse ⟨errors', ⟨line', under'⟩, tokens'⟩ ⟨.unlimited, none⟩ input').output =
          parsed.output →
        inputReports none line' errors' input'.received = reported) ∧
    ∀ finding ∈ found, ∀ number, let report := finding.report number none line
      (report.excerpt = [] ↔ finding.text = [nul]) ∧
        (report.nearClause? = none ↔ finding.text = [nul]) := by
  intro parsed found reported
  have plain : ∀ report ∈ reported, report.IsPlain := fun _ => isPlain_of_mem_inputReports
  have length_eq : (inputReports none line errors input.received).length = found.length := by
    rw [inputReports, List.length_map, List.length_zipIdx]
  obtain ⟨output_eq, errors_eq, -⟩ := parse_reports errors line tokens under none input
  have readBack : Report.readAll? parsed.output = some reported :=
    readAll?_output errors line tokens under input
  refine ⟨⟨output_eq, length_eq, errors_eq⟩, ?_, ?_, readBack, ?_, ?_⟩
  · rw [output_eq, Report.count_newline_flatMap_render plain, length_eq]
  · rw [output_eq]
    exact (Report.flatMap_render_mem_completeTexts plain).resolve_left
  · intro errors' line' tokens' under' input' same
    have readBack' := readAll?_output errors' line' tokens' under' input'
    rw [same, readBack] at readBack'
    exact (Option.some.inj readBack').symm
  · intro finding member number
    have empty_iff := Finding.excerpt_eq_nil_iff member number none line
    refine ⟨empty_iff, ?_⟩
    rw [← empty_iff, Report.nearClause?]
    split <;> simp_all

/-- A text that looks like a report, and a NUL. -/
example :
    let input : Input := ⟨Text.Utf8.encode "\": unexpected character\n" ++ [nul], none⟩
    let parsed := Pass.parse ⟨6, ⟨0, []⟩, 0⟩ ⟨.unlimited, none⟩ input
    Report.readAll? parsed.output =
      some [⟨7, none, some 1, Text.Utf8.encode "\": unexpected charac", "unterminated string"⟩,
        ⟨8, none, some 2, [], "unexpected character"⟩] := by
  decide +kernel

end Pass

end MinBasic.Check
