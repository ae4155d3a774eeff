import MinBasic.Proofs.Check.Alike
import MinBasic.Proofs.Lexical.LetterCase

/-!
# Letter case does not matter to a pass

Two inputs that differ only in letter case read alike, and the texts of their faults
differ only in letter case.  So do the excerpts in the reports, and with them the
lines that are written.
-/

namespace MinBasic.Check

open Channel Diagnostic Lexical Text

/-- Texts that differ only in letter case. -/
def SameLetters : TextRelation := fun _ text text' =>
  upperCase text = upperCase text'

/-- Lines that differ only in letter case read alike. -/
theorem linesAlike_of_upperCase_eq {line line' : Bytes} (same : upperCase line = upperCase line') :
    LinesAlike SameLetters line line' := by
  have sameLexemes : (lexemes line).map Lexeme.inUpper = (lexemes line').map Lexeme.inUpper := by
    rw [← lexemes_upperCase, ← lexemes_upperCase, same]
  apply (forall₂_of_map_eq sameLexemes).imp
  intro lexeme lexeme' sameLexeme
  obtain ⟨reading, -, text⟩ := Lexeme.mk.inj sameLexeme
  exact ⟨reading, fun {fault} _ => text⟩

/-! ## Rendered reports -/

theorem upperCase_excerpt (cursor : Cursor) :
    upperCase cursor.excerpt = (cursor.withText (upperCase cursor.text)).excerpt := by
  have same : ∀ byte, Cursor.isExcerptByte (upper byte) = Cursor.isExcerptByte byte :=
    apply_upper (by decide)
  rw [Cursor.excerpt, Cursor.excerpt, ← takeWhile_upperCase same, upperCase_take]
  rfl

theorem map_upperCase_joinClauses (separator : Bytes) (left right : Option Bytes) :
    (joinClauses separator left right).map upperCase =
      joinClauses (upperCase separator) (left.map upperCase) (right.map upperCase) := by
  cases left with
  | none => rfl
  | some left =>
      cases right with
      | none => rfl
      | some right => simp [upperCase_append]

variable {report report' : Report}

/-- Excerpts that differ only in letter case are quoted or left out together. -/
theorem map_upperCase_nearClause? (same : upperCase report.excerpt = upperCase report'.excerpt) :
    report.nearClause?.map upperCase = report'.nearClause?.map upperCase := by
  have nil_iff : report.excerpt = [] ↔ report'.excerpt = [] := by
    rw [← List.length_eq_zero_iff, ← length_upperCase, same, length_upperCase,
      List.length_eq_zero_iff]
  rw [Report.nearClause?, Report.nearClause?]
  split
  · rename_i none
    rw [if_pos (nil_iff.mp none)]
  · rename_i some
    rw [if_neg (mt nil_iff.mpr some)]
    simp only [Option.map_some, upperCase_append, same]

/-- The clauses differ only in letter case if the excerpts do and the other clauses
are the same. -/
theorem upperCase_heading (file : report.file? = report'.file?)
    (line : report.line? = report'.line?)
    (same : upperCase report.excerpt = upperCase report'.excerpt) :
    upperCase report.heading = upperCase report'.heading := by
  have position : report.position?.map upperCase = report'.position?.map upperCase := by
    simp only [Report.position?, Report.fileClause?, Report.lineClause?, file, line,
      map_upperCase_joinClauses, map_upperCase_nearClause? same]
  rw [Report.heading, Report.heading]
  cases here : report.position? with
  | none =>
      rw [here, Option.map_none, eq_comm, Option.map_eq_none_iff] at position
      rw [position]
  | some clauses =>
      rw [here, Option.map_some, eq_comm, Option.map_eq_some_iff] at position
      obtain ⟨clauses', here', sameClauses⟩ := position
      rw [here']
      simp only [upperCase_append, sameClauses]

/-- Reports that differ only in the letter case of their excerpts are rendered with
that difference. -/
theorem upperCase_render (alike : ReportsAlike SameLetters report report') :
    upperCase report.render = upperCase report'.render := by
  obtain @⟨number, source?, line, text, text', fault, texts⟩ := alike
  have excerpts : upperCase (Cursor.excerpt ⟨line, text⟩) =
      upperCase (Cursor.excerpt ⟨line, text'⟩) := by
    rw [upperCase_excerpt, upperCase_excerpt]
    exact congrArg (fun text => Cursor.excerpt ⟨line, text⟩) texts
  have headings := @upperCase_heading (.ofCursor number source? ⟨line, text⟩ fault.message)
    (.ofCursor number source? ⟨line, text'⟩ fault.message) rfl rfl excerpts
  simp only [Report.render, upperCase_append, headings]
  rfl

/-- Alike reports are written with the same letters. -/
theorem upperCase_flatMap_render {reported reported' : List Report}
    (alike : List.Forall₂ (ReportsAlike SameLetters) reported reported') :
    upperCase (reported.flatMap Report.render) = upperCase (reported'.flatMap Report.render) := by
  induction alike with
  | nil => rfl
  | cons here _ ih =>
      rw [List.flatMap_cons, List.flatMap_cons, upperCase_append, upperCase_append, ih,
        upperCase_render here]

/-! ## Runs over two inputs -/

/-- Letter case never matters to recognition.  On two texts that differ only in
letter case any number of calls gives the same readings between the same offsets.
A pass over two such inputs reaches the same state with the same status, and what
it writes differs only in letter case. -/
theorem parse_of_letter_case {first second : Bytes} (same : upperCase first = upperCase second) :
    (∀ count, ((Place.opening first).calls count).map Lexeme.span =
      ((Place.opening second).calls count).map Lexeme.span) ∧
    ∀ (pass : Pass) (source? : Option String),
      let parsed := pass.parse ⟨.unlimited, source?⟩ ⟨first, none⟩
      let parsed' := pass.parse ⟨.unlimited, source?⟩ ⟨second, none⟩
      (∃ status, parsed.result = .ok status ∧ parsed'.result = .ok status) ∧
        parsed.state = parsed'.state ∧
        parsed.output.length = parsed'.output.length ∧
        upperCase parsed.output = upperCase parsed'.output := by
  constructor
  · intro count
    rw [map_span_calls count first, same, ← map_span_calls count second]
  · intro pass source? parsed parsed'
    have alike : List.Forall₂ (LinesAlike SameLetters) (lines first) (lines second) :=
      (forall₂_lines_of_upperCase_eq same).imp fun _ _ => linesAlike_of_upperCase_eq
    obtain ⟨⟨state, -, result⟩, reportsAlike⟩ := pass.parse_alike alike source?
    obtain ⟨ended, output⟩ := pass.parse_eq_reports source? first
    obtain ⟨-, output'⟩ := pass.parse_eq_reports source? second
    have sameOutput : upperCase parsed.output = upperCase parsed'.output := by
      rw [output, output', upperCase_flatMap_render reportsAlike]
    refine ⟨⟨_, ended, result ▸ ended⟩, state, ?_, sameOutput⟩
    rw [← length_upperCase, sameOutput, length_upperCase]

/-- Keywords, an exponent, a remark and a fault in either case. -/
theorem parse_of_letter_case_of_let :
    let first := Utf8.encode "10 let a=1e5\n20 rem b\n30 lett"
    let second := Utf8.encode "10 LET A=1E5\n20 Rem B\n30 LeTt"
    upperCase first = upperCase second ∧
      ((Place.opening first).calls 20).map Lexeme.span =
        ((Place.opening second).calls 20).map Lexeme.span ∧
      upperCase (Pass.parse {} ⟨.unlimited, none⟩ ⟨first, none⟩).output =
        upperCase (Pass.parse {} ⟨.unlimited, none⟩ ⟨second, none⟩).output := by
  intro first second
  have same : upperCase first = upperCase second := by decide +kernel
  obtain ⟨spans, runs⟩ := parse_of_letter_case same
  exact ⟨same, spans 20, (runs {} none).2.2.2⟩

end MinBasic.Check
