import MinBasic.Diagnostic.Reporter
import MinBasic.Proofs.Lexical.LongestPrefix
import MinBasic.Proofs.Text.Characters

/-!
# The grammar of report lines

A report line is a number, up to three clauses, and a message.  What it shows of a source
and a cursor, and how the clauses are joined, is told by rules: `Displays` has one for each
kind of source name, and `Heading` one for each set of clauses.  A reporter writes the one
line that these rules allow, so a line depends on what it shows and on nothing else of the
source and the cursor.
-/

namespace MinBasic.Diagnostic

open Channel Lexical Text
open Text.Ascii (nul newline quote)

/-! ## What a line shows -/

/-- The name that a report displays for its source.  A name that starts with a
quotation mark is displayed without its first and last byte. -/
inductive Displays : Option String → Option Bytes → Prop where
  | unset : Displays none none
  | empty : Displays (some "") none
  | emptyQuotes : Displays (some "\"\"") none
  | plain {name : String} (nonempty : name ≠ "") (noQuote : name.toList.head? ≠ some '"') :
      Displays (some name) (some (Utf8.encode name))
  | lone : Displays (some "\"") (some [])
  | quoted {name : String} {shown : Bytes} {last : UInt8} (nonempty : name ≠ "\"\"")
      (isQuoted : Utf8.encode name = quote :: (shown ++ [last])) :
      Displays (some name) (some shown)

/-- The texts that a report can quote. -/
def excerpts : Language UInt8 :=
  {word | word.length ≤ 20 ∧ nul ∉ word ∧ newline ∉ word}

/-- The clauses of a report line, and the colon behind them, for the displayed name, the
line and the quoted text.  One rule for each set of clauses. -/
inductive Heading : Option Bytes → Int → Bytes → Bytes → Prop where
  | nothing {line : Int} (unknown : line ≤ 0) : Heading none line [] []
  | file {name : Bytes} {line : Int} (unknown : line ≤ 0) :
      Heading (some name) line [] (Utf8.encode "file " ++ name ++ Utf8.encode ": ")
  | line {line : Nat} (known : 0 < line) :
      Heading none line [] (Utf8.encode "line " ++ decimal line ++ Utf8.encode ": ")
  | near {line : Int} {excerpt : Bytes} (unknown : line ≤ 0) (nonempty : excerpt ≠ []) :
      Heading none line excerpt (Utf8.encode "near \"" ++ excerpt ++ Utf8.encode "\": ")
  | fileLine {name : Bytes} {line : Nat} (known : 0 < line) :
      Heading (some name) line []
        (Utf8.encode "file " ++ name ++ Utf8.encode ", line " ++ decimal line ++ Utf8.encode ": ")
  | fileNear {name excerpt : Bytes} {line : Int} (unknown : line ≤ 0) (nonempty : excerpt ≠ []) :
      Heading (some name) line excerpt
        (Utf8.encode "file " ++ name ++ Utf8.encode " near \"" ++ excerpt ++ Utf8.encode "\": ")
  | lineNear {line : Nat} {excerpt : Bytes} (known : 0 < line) (nonempty : excerpt ≠ []) :
      Heading none line excerpt
        (Utf8.encode "line " ++ decimal line ++ Utf8.encode " near \"" ++ excerpt ++
          Utf8.encode "\": ")
  | fileLineNear {name excerpt : Bytes} {line : Nat} (known : 0 < line) (nonempty : excerpt ≠ []) :
      Heading (some name) line excerpt
        (Utf8.encode "file " ++ name ++ Utf8.encode ", line " ++ decimal line ++
          Utf8.encode " near \"" ++ excerpt ++ Utf8.encode "\": ")

/-- The lines that report a message under a number, for a source and at a cursor. -/
inductive IsReportLine (number : Nat) (source? : Option String) (cursor : Cursor)
    (message : String) : Bytes → Prop where
  | intro {name? : Option Bytes} {excerpt heading : Bytes} (displays : Displays source? name?)
      (isLongest : IsLongestPrefix excerpts cursor.text excerpt)
      (isHeading : Heading name? cursor.line excerpt heading) :
      IsReportLine number source? cursor message
        (Utf8.encode "[error " ++ decimal number ++ Utf8.encode "] " ++ heading ++
          Utf8.encode message ++ [newline])

/-! ## The displayed name -/

theorem encode_quotes : Utf8.encode "\"\"" = [quote, quote] := by
  decide +kernel

/-- A name is displayed as the rules say. -/
theorem displays_iff {source? : Option String} {name? : Option Bytes} :
    Displays source? name? ↔ name? = source?.bind shownName? := by
  have hidden {name : String} :
      Utf8.encode name = [] ∨ Utf8.encode name = [quote, quote] ↔ name = "" ∨ name = "\"\"" := by
    rw [← encode_quotes, ← Utf8.encode_empty, Utf8.encode_inj, Utf8.encode_inj]
  constructor
  · intro displays
    cases displays with
    | unset => rfl
    | empty => rfl
    | emptyQuotes => decide +kernel
    | plain nonempty noQuote =>
        rename_i name
        have notQuotes : name ≠ "\"\"" := by
          rintro rfl
          exact noQuote rfl
        have noQuote : (Utf8.encode name).head? ≠ some quote :=
          fun starts => noQuote (Utf8.head?_of_head?_encodeChars starts (by decide))
        have isShown := mt hidden.mp (not_or.mpr ⟨nonempty, notQuotes⟩)
        rw [Option.bind_some, shownName?, if_neg isShown, if_neg noQuote]
    | lone => decide +kernel
    | quoted nonempty isQuoted =>
        rename_i name shown last
        have notEmpty : name ≠ "" := by
          rintro rfl
          contradiction
        have isShown := mt hidden.mp (not_or.mpr ⟨notEmpty, nonempty⟩)
        rw [Option.bind_some, shownName?, if_neg isShown, isQuoted, if_pos (List.head?_cons ..),
          List.tail_cons, List.dropLast_concat]
  · rintro rfl
    cases source? with
    | none => exact .unset
    | some name =>
      rw [Option.bind_some, shownName?]
      split
      · rename_i isHidden
        rcases hidden.mp isHidden with rfl | rfl
        · exact .empty
        · exact .emptyQuotes
      · rename_i shown
        obtain ⟨nonempty, notQuotes⟩ := not_or.mp (mt hidden.mpr shown)
        split
        · rename_i starts
          obtain ⟨rest, isQuoted⟩ := List.head?_eq_some_iff.mp starts
          rw [isQuoted, List.tail_cons]
          rcases List.eq_nil_or_concat rest with rfl | ⟨shown, last, rfl⟩
          · have isLone : name = "\"" := Utf8.encode_inj.mp isQuoted
            rw [isLone]
            exact .lone
          · rw [List.concat_eq_append] at isQuoted ⊢
            rw [List.dropLast_concat]
            exact .quoted notQuotes isQuoted
        · rename_i noQuote
          refine .plain nonempty fun starts => noQuote ?_
          obtain ⟨back, chars_eq⟩ := List.head?_eq_some_iff.mp starts
          rw [Utf8.encode, chars_eq]
          rfl

/-! ## The quoted text -/

/-- What is quoted is the longest text that can be. -/
theorem isLongestPrefix_excerpts_iff {cursor : Cursor} {taken : Bytes} :
    IsLongestPrefix excerpts cursor.text taken ↔ taken = cursor.excerpt := by
  have isLongest : IsLongestPrefix excerpts cursor.text cursor.excerpt := by
    have whole := IsLongestPrefix.takeWhile Cursor.isExcerptByte
      (cursor.text.take Cursor.excerptLimit)
    have accepted := mem_kstar_ofClass_iff.mp whole.mem
    constructor
    · refine ⟨cursor.length_excerpt_le, ?_, ?_⟩
      · intro member
        exact absurd (accepted _ member) (by decide)
      · intro member
        exact absurd (accepted _ member) (by decide)
    · exact whole.within.trans (List.take_prefix _ _)
    · rintro other ⟨short, noNul, noNewline⟩ within
      apply whole.longest
      · apply mem_kstar_ofClass_iff.mpr
        intro byte member
        rw [Cursor.isExcerptByte, Bool.and_eq_true, decide_eq_true_eq, decide_eq_true_eq]
        exact ⟨fun isNul => noNul (isNul ▸ member), fun isNewline => noNewline (isNewline ▸ member)⟩
      · exact List.prefix_take_iff.mpr ⟨within, short⟩
  constructor
  · exact fun isLongest' => isLongest'.unique isLongest
  · rintro rfl
    exact isLongest

/-! ## The clauses -/

/-- There is a rule for every set of clauses. -/
theorem exists_heading (name? : Option Bytes) (line : Int) (excerpt : Bytes) :
    ∃ heading, Heading name? line excerpt heading := by
  rcases Int.lt_or_le 0 line with known | unknown
  · obtain ⟨line, rfl⟩ := Int.eq_ofNat_of_zero_le (Int.le_of_lt known)
    have known : 0 < line := Int.natCast_pos.mp known
    rcases eq_or_ne excerpt [] with rfl | nonempty
    · cases name? with
      | none => exact ⟨_, .line known⟩
      | some name => exact ⟨_, .fileLine known⟩
    · cases name? with
      | none => exact ⟨_, .lineNear known nonempty⟩
      | some name => exact ⟨_, .fileLineNear known nonempty⟩
  · rcases eq_or_ne excerpt [] with rfl | nonempty
    · cases name? with
      | none => exact ⟨_, .nothing unknown⟩
      | some name => exact ⟨_, .file unknown⟩
    · cases name? with
      | none => exact ⟨_, .near unknown nonempty⟩
      | some name => exact ⟨_, .fileNear unknown nonempty⟩

theorem shownLine_of_known {line : Nat} (known : 0 < line) :
    (if 0 < (line : Int) then some (line : Int).toNat else none) = some line := by
  rw [if_pos (Int.natCast_pos.mpr known), Int.toNat_natCast]

theorem shownLine_of_unknown {line : Int} (unknown : line ≤ 0) :
    (if 0 < line then some line.toNat else none) = none :=
  if_neg (Int.not_lt.mpr unknown)

/-- A report has the clauses of its rule. -/
theorem Heading.eq_heading {name? : Option Bytes} {line : Int} {excerpt heading : Bytes}
    (isHeading : Heading name? line excerpt heading) (number : Nat) (message : String) :
    heading = Report.heading
      ⟨number, name?, if 0 < line then some line.toNat else none, excerpt, message⟩ := by
  -- The rules write a clause and what separates it in one piece.
  have commaLine : Utf8.encode ", line " = Utf8.encode ", " ++ Utf8.encode "line " := by
    decide +kernel
  have spaceNear : Utf8.encode " near \"" = Utf8.encode " " ++ Utf8.encode "near \"" := by
    decide +kernel
  have near : Utf8.encode "near \"" = Utf8.encode "near " ++ [quote] := by decide +kernel
  have closing : Utf8.encode "\": " = [quote] ++ Utf8.encode ": " := by decide +kernel
  simp only [Report.heading, Report.position?, Report.fileClause?, Report.lineClause?,
    Report.nearClause?]
  cases isHeading with
  | nothing unknown =>
      rw [shownLine_of_unknown unknown]
      rfl
  | file unknown =>
      rw [shownLine_of_unknown unknown]
      rfl
  | line known =>
      rw [shownLine_of_known known]
      rfl
  | near unknown nonempty =>
      rw [shownLine_of_unknown unknown, if_neg nonempty, near, closing]
      simp
  | fileLine known =>
      rw [shownLine_of_known known, commaLine]
      simp
  | fileNear unknown nonempty =>
      rw [shownLine_of_unknown unknown, if_neg nonempty, spaceNear, near, closing]
      simp
  | lineNear known nonempty =>
      rw [shownLine_of_known known, if_neg nonempty, spaceNear, near, closing]
      simp
  | fileLineNear known nonempty =>
      rw [shownLine_of_known known, if_neg nonempty, commaLine, spaceNear, near, closing]
      simp

/-! ## The line -/

/-- The lines of the grammar are the rendered reports. -/
theorem isReportLine_iff {number : Nat} {source? : Option String} {cursor : Cursor}
    {message : String} {line : Bytes} :
    IsReportLine number source? cursor message line ↔
      line = (Report.ofCursor number source? cursor message).render := by
  constructor
  · rintro ⟨displays, isLongest, isHeading⟩
    rw [isHeading.eq_heading number message, displays_iff.mp displays,
      isLongestPrefix_excerpts_iff.mp isLongest]
    rfl
  · rintro rfl
    obtain ⟨heading, isHeading⟩ :=
      exists_heading (source?.bind shownName?) cursor.line cursor.excerpt
    have isLine : IsReportLine number source? cursor message _ :=
      .intro (displays_iff.mpr rfl) (isLongestPrefix_excerpts_iff.mpr rfl) isHeading
    rw [isHeading.eq_heading number message] at isLine
    exact isLine

/-- A source and a cursor that a report shows like another source and another
cursor. -/
structure ShownAlike (source? : Option String) (cursor : Cursor) (source?' : Option String)
    (cursor' : Cursor) : Prop where
  name : ∀ name?, Displays source? name? ↔ Displays source?' name?
  line : max cursor.line 0 = max cursor'.line 0
  excerpt : ∀ taken, IsLongestPrefix excerpts cursor.text taken ↔
    IsLongestPrefix excerpts cursor'.text taken

/-- A report holds what is shown, and nothing else. -/
theorem ShownAlike.ofCursor_eq {source? source?' : Option String} {cursor cursor' : Cursor}
    (alike : ShownAlike source? cursor source?' cursor') (number : Nat) (message : String) :
    Report.ofCursor number source? cursor message =
      Report.ofCursor number source?' cursor' message := by
  have name : source?.bind shownName? = source?'.bind shownName? :=
    displays_iff.mp ((alike.name _).mp (displays_iff.mpr rfl))
  have excerpt : cursor.excerpt = cursor'.excerpt :=
    isLongestPrefix_excerpts_iff.mp ((alike.excerpt _).mp (isLongestPrefix_excerpts_iff.mpr rfl))
  have known : 0 < cursor.line ↔ 0 < cursor'.line := by
    have := alike.line
    omega
  have line : cursor.line.toNat = cursor'.line.toNat := by
    have := alike.line
    omega
  simp only [Report.ofCursor, name, excerpt, known, line]

/-- A report is one line of the grammar, which is the only one for its number, source,
cursor and message.  A stream that takes it stores that line, and so does one that takes
the report of the same number and message for a source and a cursor that are shown
alike. -/
theorem report_isReportLine (reporter : Reporter) (number : Nat) (cursor : Cursor)
    (message : String) :
    let delivery := reporter.report number cursor message
    ∃ line, (∀ bytes, IsReportLine number reporter.source? cursor message bytes ↔ bytes = line) ∧
      ((reporter.sink.write line).refusal? = none →
        delivery.stored = line ∧ delivery.refusal? = none) ∧
      ∀ (reporter' : Reporter) (cursor' : Cursor),
        ShownAlike reporter.source? cursor reporter'.source? cursor' →
        (reporter'.sink.write line).refusal? = none →
          (reporter'.report number cursor' message).stored = line := by
  intro delivery
  refine ⟨_, fun _ => isReportLine_iff, ?_, ?_⟩
  · intro accepted
    exact ⟨Sink.stored_eq_of_not_refused accepted, accepted⟩
  · intro reporter' cursor' alike accepted
    rw [alike.ofCursor_eq] at accepted ⊢
    exact Sink.stored_eq_of_not_refused accepted

/-- A name with one quotation mark, on an unknown line. -/
example :
    let reporter : Reporter := ⟨.unlimited, some "\"a"⟩
    (reporter.report 2 ⟨-4, Utf8.encode "X\nY"⟩ "bad").stored =
      Utf8.encode "[error 2] file  near \"X\": bad\n" := by
  decide +kernel

end MinBasic.Diagnostic
