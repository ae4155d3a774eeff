import Mathlib.Data.List.Forall2
import MinBasic.Proofs.Check.ClosedForm

/-!
# Passes over inputs that read alike

Two inputs read alike if their lines have the same readings in the same order, and
the texts of their faults are related in some way.  A pass counts and notes the
same over such inputs, and its reports differ in what they quote at most.

Where the reports quote the same, a pass does the same on any stream.  Only the
text under the cursor can differ then, and that is taken away at the end of an
input.
-/

namespace MinBasic.Check

open Channel Diagnostic Lexical

/-! ## Lines that read alike -/

/-- A relation between the texts of two faults of one kind. -/
abbrev TextRelation :=
  Fault → Bytes → Bytes → Prop

/-- Two lexemes that read the same, with texts that are related if they are
faults. -/
structure LexemesAlike (R : TextRelation) (lexeme lexeme' : Lexeme) : Prop where
  reading : lexeme.reading = lexeme'.reading
  texts : ∀ {fault : Fault}, lexeme.reading = .fault fault → R fault lexeme.text lexeme'.text

/-- Two lines with lexemes that are alike. -/
def LinesAlike (R : TextRelation) (line line' : Bytes) : Prop :=
  List.Forall₂ (LexemesAlike R) (lexemes line) (lexemes line')

/-- Texts of which a report quotes the same. -/
def SameExcerpt : TextRelation := fun _ text text' =>
  Cursor.excerpt ⟨0, text⟩ = Cursor.excerpt ⟨0, text'⟩

theorem SameExcerpt.of_eq (fault : Fault) {text text' : Bytes} (same : text = text') :
    SameExcerpt fault text text' :=
  congrArg (fun text => Cursor.excerpt ⟨0, text⟩) same

/-- Lexemes that differ in their offsets are alike. -/
theorem LexemesAlike.of_eq {lexeme lexeme' : Lexeme} (reading : lexeme.reading = lexeme'.reading)
    (text : lexeme.text = lexeme'.text) : LexemesAlike SameExcerpt lexeme lexeme' :=
  ⟨reading, fun {fault} _ => .of_eq fault text⟩

theorem LinesAlike.refl (line : Bytes) : LinesAlike SameExcerpt line line :=
  List.forall₂_same.mpr fun _ _ => .of_eq rfl rfl

/-! ## Passes on any stream -/

/-- Progress without the text under the cursor. -/
def Progress.finished (progress : Progress Pass) : Progress Pass :=
  { progress with state := progress.state.finish }

/-- What a pass did without the text under the cursor. -/
def Parsed.finished (parsed : Parsed Pass) : Parsed Pass :=
  { parsed with state := parsed.state.finish }

/-- Work that does the same, except for the text under the cursor. -/
def WorkAlike (work work' : Work Pass) : Prop :=
  ∀ ⦃pass pass' : Pass⦄, pass.finish = pass'.finish → ∀ reporter : Reporter,
    (work pass reporter).finished = (work' pass' reporter).finished

theorem Pass.finish_eq_iff {pass pass' : Pass} :
    pass.finish = pass'.finish ↔
      pass.errors = pass'.errors ∧ pass.cursor.line = pass'.cursor.line ∧
        pass.tokens = pass'.tokens := by
  simp [finish, Cursor.clearText, Cursor.withText]

theorem Progress.finished_eq_iff {progress progress' : Progress Pass} :
    progress.finished = progress'.finished ↔
      progress.state.finish = progress'.state.finish ∧ progress.reporter = progress'.reporter ∧
        progress.output = progress'.output ∧ progress.events = progress'.events ∧
        progress.refusal? = progress'.refusal? := by
  rw [finished, finished, Progress.mk.injEq]

theorem Parsed.finished_eq_iff {parsed parsed' : Parsed Pass} :
    parsed.finished = parsed'.finished ↔
      parsed.state.finish = parsed'.state.finish ∧ parsed.reporter = parsed'.reporter ∧
        parsed.output = parsed'.output ∧ parsed.events = parsed'.events ∧
        parsed.result = parsed'.result := by
  rw [finished, finished, Parsed.mk.injEq]

namespace WorkAlike

theorem still : WorkAlike Progress.still Progress.still := by
  intro pass pass' same reporter
  rw [Progress.finished_eq_iff]
  exact ⟨same, rfl, rfl, rfl, rfl⟩

/-- Work that goes on alike from progress that is alike. -/
theorem andThen {done done' : Progress Pass} {more more' : Work Pass}
    (same : done.finished = done'.finished) (alike : WorkAlike more more') :
    (done.andThen more).finished = (done'.andThen more').finished := by
  obtain ⟨state, reporter, output, events, refusal?⟩ := Progress.finished_eq_iff.mp same
  cases refused : done.refusal? with
  | some refusal =>
      rw [Progress.andThen_of_refused refused, Progress.andThen_of_refused (refusal? ▸ refused),
        same]
  | none =>
      obtain ⟨later, reporter', output', events', later?⟩ :=
        Progress.finished_eq_iff.mp (alike state done.reporter)
      rw [Progress.andThen_of_unrefused refused,
        Progress.andThen_of_unrefused (refusal? ▸ refused), Progress.finished_eq_iff, ← reporter]
      exact ⟨later, reporter', congrArg₂ (· ++ ·) output output',
        congrArg₂ (· ++ ·) events events', later?⟩

/-- The work of lists that are alike, item by item. -/
theorem forEach {α : Type} {R : α → α → Prop} {work : α → Work Pass}
    (one : ∀ ⦃item item' : α⦄, R item item' → WorkAlike (work item) (work item'))
    {items items' : List α} (alike : List.Forall₂ R items items') :
    WorkAlike (Progress.forEach work items) (Progress.forEach work items') := by
  induction alike with
  | nil => exact still
  | cons here _ ih =>
      intro pass pass' same reporter
      exact andThen (one here same reporter) ih

/-- Alike lexemes are counted and reported alike. -/
theorem readLexeme {lexeme lexeme' : Lexeme} (alike : LexemesAlike SameExcerpt lexeme lexeme') :
    WorkAlike (Pass.readLexeme lexeme) (Pass.readLexeme lexeme') := by
  intro pass pass' same reporter
  obtain ⟨errors, line, tokens⟩ := Pass.finish_eq_iff.mp same
  rw [Pass.readLexeme, Pass.readLexeme, ← alike.reading]
  cases reading : lexeme.reading with
  | token token =>
      rw [Progress.finished_eq_iff, Pass.finish_eq_iff]
      exact ⟨⟨errors, line, congrArg (· + 1) tokens⟩, rfl, rfl, by simp [line], rfl⟩
  | fault fault =>
      -- A report shows the line and the excerpt of its cursor and nothing else.
      have sameLine : reporter.line (pass.errors + 1) (pass.cursor.withText lexeme.text)
          fault.message = reporter.line (pass'.errors + 1) (pass'.cursor.withText lexeme'.text)
          fault.message := by
        have quoted : (pass.cursor.withText lexeme.text).excerpt =
            (pass'.cursor.withText lexeme'.text).excerpt := alike.texts reading
        rw [Reporter.line, Reporter.line, Report.ofCursor, Report.ofCursor, Cursor.line_withText,
          Cursor.line_withText, errors, line, quoted]
      have delivered : reporter.report (pass.errors + 1) (pass.cursor.withText lexeme.text)
          fault.message = reporter.report (pass'.errors + 1) (pass'.cursor.withText lexeme'.text)
          fault.message := by
        rw [Reporter.report, Reporter.report, sameLine]
      rw [Progress.finished_eq_iff, Pass.finish_eq_iff]
      dsimp only
      rw [delivered]
      exact ⟨⟨congrArg (· + 1) errors, line, tokens⟩, rfl, rfl, rfl, rfl⟩
  | endOfText => exact still same reporter

/-- Alike lines are read alike. -/
theorem readLine {line line' : Bytes} (alike : LinesAlike SameExcerpt line line') :
    WorkAlike (Pass.readLine line) (Pass.readLine line') := by
  intro pass pass' same reporter
  obtain ⟨errors, line, tokens⟩ := Pass.finish_eq_iff.mp same
  have same : pass.nextLine.finish = pass'.nextLine.finish :=
    Pass.finish_eq_iff.mpr ⟨errors, congrArg (· + 1) line, tokens⟩
  exact forEach (fun _ _ alike => readLexeme alike) alike same reporter

end WorkAlike

/-- Inputs with alike lines are parsed alike. -/
theorem Pass.finished_parse {input input' : Input} (refusal? : input.refusal? = input'.refusal?)
    (alike : List.Forall₂ (LinesAlike SameExcerpt) input.lines input'.lines) (pass : Pass)
    (reporter : Reporter) :
    (pass.parse reporter input).finished = (pass.parse reporter input').finished := by
  have run : WorkAlike (readLines input.lines) (readLines input'.lines) :=
    WorkAlike.forEach (fun _ _ alike => WorkAlike.readLine alike) alike
  have same := run (Eq.refl pass.finish) reporter
  unfold parse
  generalize readLines input.lines pass reporter = progress at same
  generalize readLines input'.lines pass reporter = progress' at same
  obtain ⟨state, sink, output, events, refused⟩ := Progress.finished_eq_iff.mp same
  simp only [refusal?, refused, state, output, events, sink]
  cases progress'.refusal?.or input'.refusal? with
  | some refusal => simp only [Parsed.finished, state]
  | none => rfl

/-! ## Reports on a stream that takes everything -/

/-- Nothing is left under the cursor at the end of an input. -/
theorem Pass.finished_parse_unlimited (pass : Pass) (source? : Option String) (content : Bytes) :
    (pass.parse ⟨.unlimited, source?⟩ ⟨content, none⟩).finished =
      pass.parse ⟨.unlimited, source?⟩ ⟨content, none⟩ := by
  rw [parse_eq_tally]
  rfl

/-- A pass ends with a status, and writes the reports of the findings. -/
theorem Pass.parse_eq_reports (pass : Pass) (source? : Option String) (content : Bytes) :
    let parsed := pass.parse ⟨.unlimited, source?⟩ ⟨content, none⟩
    parsed.result = .ok parsed.state.status ∧
      parsed.output = (reports source? pass.cursor.line pass.errors
        (findings (marks content))).flatMap Report.render := by
  rw [parse_eq_tally]
  exact ⟨rfl, rfl⟩

/-- Two findings of one kind on one line, with related texts. -/
structure FindingsAlike (R : TextRelation) (finding finding' : Finding) : Prop where
  line : finding.line = finding'.line
  fault : finding.fault = finding'.fault
  texts : R finding.fault finding.text finding'.text

/-- Two reports that differ in what they quote at most, which is the excerpt of
related texts. -/
inductive ReportsAlike (R : TextRelation) : Report → Report → Prop where
  | intro {number : Nat} {source? : Option String} {line : Int} {text text' : Bytes} {fault : Fault}
      (texts : R fault text text') :
      ReportsAlike R (.ofCursor number source? ⟨line, text⟩ fault.message)
        (.ofCursor number source? ⟨line, text'⟩ fault.message)

variable {R : TextRelation}

/-- The lexemes of alike lines, with the numbers of the lines. -/
theorem forall₂_marks {lines lines' : List Bytes} (alike : List.Forall₂ (LinesAlike R) lines lines')
    (passed : Nat) :
    List.Forall₂ (fun mark mark' =>
        mark.line = mark'.line ∧ LexemesAlike R mark.lexeme mark'.lexeme)
      (marksFrom passed (moves lines)) (marksFrom passed (moves lines')) := by
  rw [marksFrom_moves, marksFrom_moves]
  induction alike generalizing passed with
  | nil => exact .nil
  | cons here _ ih =>
      rw [List.zipIdx_cons, List.zipIdx_cons, List.flatMap_cons, List.flatMap_cons]
      apply List.rel_append _ (ih (passed + 1))
      rw [List.forall₂_map_left_iff, List.forall₂_map_right_iff]
      exact here.imp fun _ _ alike => ⟨rfl, alike⟩

/-- Alike marks have the same tokens, and alike findings. -/
theorem forall₂_findings {found found' : List Mark}
    (alike : List.Forall₂ (fun mark mark' =>
      mark.line = mark'.line ∧ LexemesAlike R mark.lexeme mark'.lexeme) found found') :
    tokensOf found = tokensOf found' ∧
      List.Forall₂ (FindingsAlike R) (findings found) (findings found') := by
  induction alike with
  | nil => exact ⟨rfl, .nil⟩
  | @cons mark mark' _ _ here _ ih =>
      rcases mark with ⟨line, reading, start, text⟩
      rcases mark' with ⟨line', reading', start', text'⟩
      obtain ⟨rfl, rfl, texts⟩ : line = line' ∧ reading = reading' ∧
          ∀ {fault : Fault}, reading = .fault fault → R fault text text' :=
        ⟨here.1, here.2.reading, here.2.texts⟩
      obtain ⟨tokens, faults⟩ := ih
      cases reading with
      | token token => exact ⟨congrArg ((line, token) :: ·) tokens, faults⟩
      | fault fault => exact ⟨tokens, .cons ⟨rfl, rfl, texts rfl⟩ faults⟩
      | endOfText => exact ⟨tokens, faults⟩

/-- The reports of alike findings are alike. -/
theorem forall₂_reports {found found' : List Finding}
    (alike : List.Forall₂ (FindingsAlike R) found found') (source? : Option String) (line : Int)
    (errors : Nat) :
    List.Forall₂ (ReportsAlike R) (reports source? line errors found)
      (reports source? line errors found') := by
  induction alike generalizing errors with
  | nil => exact .nil
  | @cons finding finding' _ _ here _ ih =>
      rcases finding with ⟨number, fault, text⟩
      rcases finding' with ⟨number', fault', text'⟩
      obtain ⟨rfl, rfl, texts⟩ : number = number' ∧ fault = fault' ∧ R fault text text' :=
        ⟨here.line, here.fault, here.texts⟩
      exact .cons (.intro texts) (ih (errors + 1))

/-- A pass over inputs that read alike reaches the same state, notes the same, ends
with the same status and writes reports that are alike. -/
theorem Pass.parse_alike {content content' : Bytes}
    (alike : List.Forall₂ (LinesAlike R) (Text.lines content) (Text.lines content')) (pass : Pass)
    (source? : Option String) :
    let parsed := pass.parse ⟨.unlimited, source?⟩ ⟨content, none⟩
    let parsed' := pass.parse ⟨.unlimited, source?⟩ ⟨content', none⟩
    (parsed.state = parsed'.state ∧ parsed.events = parsed'.events ∧
      parsed.result = parsed'.result) ∧
      List.Forall₂ (ReportsAlike R)
        (reports source? pass.cursor.line pass.errors (findings (marks content)))
        (reports source? pass.cursor.line pass.errors (findings (marks content'))) := by
  have marksAlike := forall₂_marks alike 0
  rw [marksFrom_moves_lines, marksFrom_moves_lines] at marksAlike
  obtain ⟨tokens, faults⟩ := forall₂_findings marksAlike
  have state : pass.tally (marks content) ⟨pass.cursor.line + (Text.lines content).length, []⟩ =
      pass.tally (marks content') ⟨pass.cursor.line + (Text.lines content').length, []⟩ := by
    rw [tally, tally, tokens, faults.length_eq, alike.length_eq]
  refine ⟨?_, forall₂_reports faults source? _ _⟩
  rw [parse_eq_tally, parse_eq_tally]
  dsimp only
  rw [state, tokens]
  exact ⟨rfl, rfl, rfl⟩

end MinBasic.Check
