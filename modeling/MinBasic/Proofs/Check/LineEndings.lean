import MinBasic.Proofs.Check.Alike
import MinBasic.Proofs.Lexical.LineEnding

/-!
# Line endings do not matter to a pass

A pass over an input without its last newline, or with a return before every
newline, finds the same.  Only a string that is not closed covers the end of its
line.  The newline is not quoted in its report, but the return may be.
-/

namespace MinBasic.Check

open Channel Diagnostic Lexical Text
open Text.Ascii (newline isBlank isBlank_newline)

/-! ## The last newline -/

/-- A newline at the end of a text is not quoted. -/
theorem sameExcerpt_append_newline (fault : Fault) (text : Bytes) :
    SameExcerpt fault (text ++ [newline]) text := by
  have stops : (text ++ [newline]).takeWhile Cursor.isExcerptByte =
      text.takeWhile Cursor.isExcerptByte := by
    rw [List.takeWhile_append]
    split
    · rename_i whole
      have nothing : [newline].takeWhile Cursor.isExcerptByte = [] := rfl
      rw [nothing, List.append_nil]
      exact (List.IsPrefix.eq_of_length (List.takeWhile_prefix _) whole).symm
    · rfl
  rw [SameExcerpt, Cursor.excerpt, Cursor.excerpt, ← List.take_takeWhile, ← List.take_takeWhile,
    stops]

/-- A line reads alike with and without its newline. -/
theorem linesAlike_append_newline {line : Bytes} (noNewline : newline ∉ line) :
    LinesAlike SameExcerpt (line ++ [newline]) line := by
  have reended := forall₂_reended_lexemes noNewline (List.forall_mem_nil fun byte =>
    isBlank byte = true)
  rw [List.append_nil] at reended
  apply reended.imp
  intro lexeme lexeme' reended
  cases reended with
  | same closed => exact .of_eq rfl rfl
  | remark => exact .of_eq rfl (List.append_nil _).symm
  | openString =>
      refine ⟨rfl, fun {fault} _ => ?_⟩
      rw [List.append_nil]
      exact sameExcerpt_append_newline fault _

/-- A text that lacks its last newline reads alike with it. -/
theorem forall₂_linesAlike_append_newline {content : Bytes} (nonempty : content ≠ [])
    (unended : isEnded content = false) :
    List.Forall₂ (LinesAlike SameExcerpt) (lines (content ++ [newline])) (lines content) := by
  obtain ⟨whole, tail, complete, noNewline, rfl⟩ := exists_complete_append content
  have tail_ne_nil : tail ≠ [] := by
    rintro rfl
    rw [List.append_nil] at nonempty unended
    rcases complete with none | ended
    · exact nonempty none
    · rw [unended] at ended
      contradiction
  rw [List.append_assoc, lines_append complete, lines_append complete,
    lines_append_newline noNewline, lines_nil, lines_eq_singleton tail_ne_nil noNewline]
  apply List.rel_append (List.forall₂_same.mpr fun line _ => .refl line)
  exact .cons (linesAlike_append_newline noNewline) .nil

/-! ## Returns before newlines -/

/-- A text with a return before every newline. -/
def withReturns (text : Bytes) : Bytes :=
  text.flatMap fun byte => if byte = newline then [0x0D, newline] else [byte]

theorem withReturns_of_not_mem {text : Bytes} (noNewline : newline ∉ text) :
    withReturns text = text := by
  induction text with
  | nil => rfl
  | cons byte text ih =>
      rw [List.mem_cons, not_or] at noNewline
      rw [withReturns, List.flatMap_cons, if_neg (Ne.symm noNewline.1)]
      exact congrArg (byte :: ·) (ih noNewline.2)

theorem withReturns_append_newline {line : Bytes} (noNewline : newline ∉ line) (rest : Bytes) :
    withReturns (line ++ newline :: rest) = (line ++ [0x0D]) ++ newline :: withReturns rest := by
  have split : withReturns (line ++ newline :: rest) =
      withReturns line ++ 0x0D :: newline :: withReturns rest :=
    List.flatMap_append
  rw [split, withReturns_of_not_mem noNewline, List.append_assoc]
  rfl

/-- The lines of a text with returns are the lines of the text, with returns. -/
theorem lines_withReturns (text : Bytes) :
    lines (withReturns text) = (lines text).map withReturns := by
  have cut := cutInto_lines text
  generalize lines text = cutLines at cut
  induction cut with
  | nothing => rfl
  | unended nonempty noNewline =>
      rw [List.map_singleton, withReturns_of_not_mem noNewline]
      exact lines_eq_singleton nonempty noNewline
  | @ended line rest _ noNewline _ ih =>
      have noNewline' : newline ∉ line ++ [0x0D] := by
        rw [List.mem_append, not_or]
        exact ⟨noNewline, by decide⟩
      rw [withReturns_append_newline noNewline, lines_append_newline noNewline', ih, List.map_cons,
        withReturns_append_newline noNewline]
      rfl

/-- Texts that are the same, unless they are strings that are not closed. -/
def SameUnlessOpen : TextRelation := fun fault text text' =>
  fault ≠ .unterminatedString → text = text'

/-- A line of a text reads alike with a return before its newline. -/
theorem linesAlike_withReturns {line : Bytes} (oneLine : newline ∉ line.dropLast) :
    LinesAlike SameUnlessOpen line (withReturns line) := by
  cases ended : isEnded line with
  | false =>
      rw [withReturns_of_not_mem (newline_not_mem_of_not_isEnded oneLine ended)]
      exact List.forall₂_same.mpr fun _ _ => ⟨rfl, fun _ _ => rfl⟩
  | true =>
      obtain ⟨body, rfl⟩ := List.getLast?_eq_some_iff.mp (isEnded_iff.mp ended)
      rw [List.dropLast_concat] at oneLine
      have blank : ∀ byte ∈ [0x0D, newline], isBlank byte = true := by decide +kernel
      have returned : withReturns (body ++ [newline]) = body ++ [0x0D, newline] :=
        (withReturns_append_newline oneLine []).trans (List.append_assoc ..)
      rw [returned]
      apply (forall₂_reended_lexemes oneLine blank).imp
      intro lexeme lexeme' reended
      cases reended with
      | same closed => exact ⟨rfl, fun _ _ => rfl⟩
      | remark => exact ⟨rfl, nofun⟩
      | openString =>
          refine ⟨rfl, ?_⟩
          rintro _ ⟨rfl⟩ closed
          exact absurd rfl closed

/-! ## The diagnosis -/

/-- What a report says, except for what it quotes. -/
def diagnosis (report : Report) : Nat × Option Nat × String :=
  (report.number, report.line?, report.message)

theorem map_diagnosis_eq {R : TextRelation} {reported reported' : List Report}
    (alike : List.Forall₂ (ReportsAlike R) reported reported') :
    reported.map diagnosis = reported'.map diagnosis := by
  induction alike with
  | nil => rfl
  | cons here _ ih =>
      obtain ⟨texts⟩ := here
      exact congrArg (_ :: ·) ih

/-- Without a string that is not closed the reports are the same. -/
theorem reports_eq_of_closed {reported reported' : List Report}
    (alike : List.Forall₂ (ReportsAlike SameUnlessOpen) reported reported')
    (closed : ∀ report ∈ reported, report.message ≠ Fault.unterminatedString.message) :
    reported = reported' := by
  induction alike with
  | nil => rfl
  | cons here _ ih =>
      obtain ⟨closedHere, closedLater⟩ := List.forall_mem_cons.mp closed
      obtain ⟨texts⟩ := here
      rw [ih closedLater, texts fun isOpen => closedHere (congrArg Fault.message isOpen)]

/-- The diagnosis of an input does not depend on its line endings.  A pass does
exactly the same when the newline of the last line is missing.  With a return
before every newline it reaches the same state with the same status, and its
reports have the same numbers, lines and messages; what it writes is the same,
byte for byte, if no string is left open. -/
theorem parse_of_line_endings (pass : Pass) (source? : Option String) (content : Bytes) :
    (content ≠ [] → isEnded content = false →
      pass.parse ⟨.unlimited, source?⟩ ⟨content ++ [newline], none⟩ =
        pass.parse ⟨.unlimited, source?⟩ ⟨content, none⟩) ∧
    let parsed := pass.parse ⟨.unlimited, source?⟩ ⟨content, none⟩
    let parsed' := pass.parse ⟨.unlimited, source?⟩ ⟨withReturns content, none⟩
    let reported := reports source? pass.cursor.line pass.errors (findings (marks content))
    let reported' :=
      reports source? pass.cursor.line pass.errors (findings (marks (withReturns content)))
    (∃ status, parsed.result = .ok status ∧ parsed'.result = .ok status) ∧
      parsed'.state = parsed.state ∧
      parsed.output = reported.flatMap Report.render ∧
      parsed'.output = reported'.flatMap Report.render ∧
      reported'.map diagnosis = reported.map diagnosis ∧
      ((∀ report ∈ reported, report.message ≠ Fault.unterminatedString.message) →
        parsed'.output = parsed.output) := by
  constructor
  · intro nonempty unended
    have alike := forall₂_linesAlike_append_newline nonempty unended
    have same := @Pass.finished_parse ⟨content ++ [newline], none⟩ ⟨content, none⟩ rfl alike pass
      ⟨.unlimited, source?⟩
    rwa [Pass.finished_parse_unlimited, Pass.finished_parse_unlimited] at same
  · intro parsed parsed' reported reported'
    have alike : List.Forall₂ (LinesAlike SameUnlessOpen) (lines content)
        (lines (withReturns content)) := by
      rw [lines_withReturns, List.forall₂_map_right_iff, List.forall₂_same]
      intro line member
      exact linesAlike_withReturns (newline_not_mem_dropLast_of_mem_lines member)
    obtain ⟨⟨state, -, result⟩, reportsAlike⟩ := pass.parse_alike alike source?
    obtain ⟨ended, output⟩ := pass.parse_eq_reports source? content
    obtain ⟨-, output'⟩ := pass.parse_eq_reports source? (withReturns content)
    refine ⟨⟨_, ended, result ▸ ended⟩, state.symm, output, output',
      (map_diagnosis_eq reportsAlike).symm, fun closed => ?_⟩
    rw [output, output', reports_eq_of_closed reportsAlike closed]

/-- A string that is left open at the end of an input, and a fault on a line with a
return. -/
theorem parse_of_line_endings_of_faults :
    let unended := Utf8.encode "10 ?\n20 \"A"
    let closed := Utf8.encode "10 ?\n"
    let parse := fun content => Pass.parse {} ⟨.unlimited, none⟩ ⟨content, none⟩
    (unended ≠ [] ∧ isEnded unended = false ∧ parse (unended ++ [newline]) = parse unended) ∧
      (∀ report ∈ reports none 0 0 (findings (marks closed)),
        report.message ≠ Fault.unterminatedString.message) ∧
      (parse (withReturns closed)).output = (parse closed).output := by
  intro unended closed parse
  have nonempty : unended ≠ [] := by decide +kernel
  have noNewline : isEnded unended = false := by decide +kernel
  have allClosed : ∀ report ∈ reports none 0 0 (findings (marks closed)),
      report.message ≠ Fault.unterminatedString.message := by
    decide +kernel
  have same := (parse_of_line_endings {} none unended).1 nonempty noNewline
  obtain ⟨-, -, -, -, -, output⟩ := (parse_of_line_endings {} none closed).2
  exact ⟨⟨nonempty, noNewline, same⟩, allClosed, output allClosed⟩

/-- The return is quoted with a string that is left open. -/
example :
    (Pass.parse {} ⟨.unlimited, none⟩ ⟨withReturns (Utf8.encode "\"A\n"), none⟩).output =
      Utf8.encode "[error 1] line 1 near \"\"A\r\": unterminated string\n" := by
  decide +kernel

end MinBasic.Check
