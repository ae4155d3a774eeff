import Mathlib.Data.List.Basic
import MinBasic.Diagnostic.Report
import MinBasic.Lexical.Token
import MinBasic.Proofs.Text.Complete

/-!
# Reading reports back

A report of a fault, without a file, can be read back from its line.  The quoted
text is not escaped and can look like any clause or message, so a line is read
from both ends: the numbers stand before the quoted text and the message behind
it, and what is left between them is the quoted text with its quotes.  Reports
have no newline but the one that ends them, so a text of reports is cut into
their lines.
-/

namespace MinBasic.Text

open Computability Ascii Lexical

/-! ## Reading decimal numbers -/

/-- The number that decimal digits spell. -/
def readDecimal (digits : Bytes) : Nat :=
  Nat.ofDigitChars 10 (digits.map toChar) 0

/-- A digit is the character with the number of its byte. -/
theorem toChar_toUInt8_of_isDigit {digit : Char} (isDigit : digit.isDigit = true) :
    toChar digit.toNat.toUInt8 = digit := by
  simp only [Char.isDigit, Bool.and_eq_true, decide_eq_true_eq, UInt32.le_iff_toNat_le] at isDigit
  have upper : digit.toNat ≤ 57 := isDigit.2
  have small : digit.toNat.toUInt8.toNat = digit.toNat :=
    Nat.mod_eq_of_lt (Nat.lt_of_le_of_lt upper (by decide))
  rw [toChar, small, Char.ofNat_toNat]

theorem readDecimal_decimal (n : Nat) : readDecimal (decimal n) = n := by
  have kept : ∀ digit ∈ Nat.toDigits 10 n, toChar digit.toNat.toUInt8 = digit :=
    fun _ member => toChar_toUInt8_of_isDigit
      (Nat.isDigit_of_mem_toDigits (by decide) (by decide) member)
  have chars_eq : (decimal n).map toChar = Nat.toDigits 10 n := by
    rw [decimal, List.map_map]
    exact (List.map_congr_left kept).trans (List.map_id _)
  rw [readDecimal, chars_eq, Nat.ofDigitChars_ten_toDigits]

/-- Read the number that a text starts with. -/
def readNumber (text : Bytes) : Nat × Bytes :=
  (readDecimal (text.takeWhile isDigit), text.dropWhile isDigit)

theorem readNumber_decimal_append (n : Nat) {rest : Bytes}
    (stops : ∀ byte ∈ rest.head?, isDigit byte = false) :
    readNumber (decimal n ++ rest) = (n, rest) := by
  have longest : IsLongestPrefix (ofClass isDigit)∗ (decimal n ++ rest) (decimal n) :=
    IsLongestPrefix.kstar_iff.mpr ⟨fun _ => isDigit_of_mem_decimal, stops⟩
  have split := List.takeWhile_append_dropWhile (p := isDigit) (l := decimal n ++ rest)
  rw [← longest.eq_takeWhile] at split
  rw [readNumber, ← longest.eq_takeWhile, readDecimal_decimal, List.append_cancel_left split]

end MinBasic.Text

namespace MinBasic.Diagnostic

open Text Text.Ascii

/-! ## What a report shows -/

/-- What is shown of a name is a part of it. -/
theorem mem_encode_of_mem_shownName {source : String} {name : Bytes}
    (shown : shownName? source = some name) {byte : UInt8} (member : byte ∈ name) :
    byte ∈ Utf8.encode source := by
  rw [shownName?] at shown
  split at shown
  · contradiction
  · split at shown
    · obtain rfl := Option.some.inj shown
      exact List.mem_of_mem_tail (List.mem_of_mem_dropLast member)
    · obtain rfl := Option.some.inj shown
      exact member

theorem Cursor.newline_not_mem_excerpt (cursor : Cursor) : newline ∉ cursor.excerpt := by
  intro member
  have accepted := List.mem_takeWhile_imp member
  contradiction

end MinBasic.Diagnostic

namespace MinBasic.Diagnostic.Report

open Lexical Text Text.Ascii

/-! ## Reading a report -/

/-- The faults that can be reported. -/
def faults : List Fault :=
  [.unexpectedCharacter, .unterminatedString, .unrecognizedWord]

/-- What ends the report of a fault. -/
def ending (fault : Fault) : Bytes :=
  Utf8.encode ": " ++ (Utf8.encode fault.message ++ [newline])

/-- The quoted text, or nothing, as it stands in a report behind a line. -/
def quotation (excerpt : Bytes) : Bytes :=
  if excerpt = [] then [] else Utf8.encode " near " ++ [quote] ++ (excerpt ++ [quote])

/-- Read the fault at the end of a text. -/
def readFault? (text : Bytes) : Option (Bytes × Fault) :=
  faults.findSome? fun fault => (text.dropSuffix? (ending fault)).map (·, fault)

/-- Read the text in a quotation. -/
def readQuotation? (text : Bytes) : Option Bytes :=
  if text = [] then some []
  else (text.dropPrefix? (Utf8.encode " near " ++ [quote])).bind (·.dropSuffix? [quote])

/-- Read the report of a fault from its line. -/
def read? (text : Bytes) : Option Report := do
  let counted ← text.dropPrefix? (Utf8.encode "[error ")
  let (number, placed) := readNumber counted
  let placed ← placed.dropPrefix? (Utf8.encode "] line ")
  let (line, worded) := readNumber placed
  let (quoted, fault) ← readFault? worded
  let excerpt ← readQuotation? quoted
  return { number, file? := none, line? := some line, excerpt, message := fault.message }

/-- Read the reports in a text. -/
def readAll? (text : Bytes) : Option (List Report) :=
  (lines text).mapM read?

/-- The reports of faults that name a line and no file, and quote no newline. -/
structure IsPlain (report : Report) : Prop where
  noFile : report.file? = none
  hasLine : ∃ line, report.line? = some line
  noNewline : newline ∉ report.excerpt
  isFault : ∃ fault : Fault, report.message = fault.message

theorem dropPrefix?_append (start rest : Bytes) : (start ++ rest).dropPrefix? start = some rest :=
  List.dropPrefix?_append_of_beq rest BEq.rfl

theorem dropSuffix?_append (start rest : Bytes) : (start ++ rest).dropSuffix? rest = some start :=
  List.dropSuffix?_eq_some_iff.mpr ⟨rest, rfl, BEq.rfl⟩

theorem mem_faults (fault : Fault) : fault ∈ faults := by
  cases fault <;> decide

/-- No ending is a part of another one. -/
theorem eq_of_ending_suffix {fault fault' : Fault} (within : ending fault <:+ ending fault') :
    fault = fault' := by
  have apart : ∀ fault ∈ faults, ∀ fault' ∈ faults, ending fault <:+ ending fault' →
      fault = fault' := by
    decide +kernel
  exact apart fault (mem_faults fault) fault' (mem_faults fault') within

/-- Only its own fault is read at the end of a text. -/
theorem readFault?_append (text : Bytes) (fault : Fault) :
    readFault? (text ++ ending fault) = some (text, fault) := by
  have isSome : (readFault? (text ++ ending fault)).isSome = true :=
    List.findSome?_isSome_iff.mpr ⟨fault, mem_faults fault, by rw [dropSuffix?_append]; rfl⟩
  obtain ⟨⟨text', fault'⟩, isRead⟩ := Option.isSome_iff_exists.mp isSome
  obtain ⟨other, -, isDropped⟩ := List.exists_of_findSome?_eq_some isRead
  obtain ⟨rest, isRest, same⟩ := Option.map_eq_some_iff.mp isDropped
  obtain ⟨rfl, rfl⟩ := Prod.mk.inj same
  obtain ⟨ending', split, isEnding⟩ := List.dropSuffix?_eq_some_iff.mp isRest
  rw [eq_of_beq isEnding] at split
  obtain rfl : fault = other := by
    rcases List.suffix_or_suffix_of_suffix (List.suffix_append text (ending fault))
      ⟨rest, split.symm⟩ with within | within
    · exact eq_of_ending_suffix within
    · exact (eq_of_ending_suffix within).symm
  rw [isRead, List.append_cancel_right split]

theorem readQuotation?_quotation (excerpt : Bytes) :
    readQuotation? (quotation excerpt) = some excerpt := by
  rw [quotation, readQuotation?]
  split
  · rename_i empty
    rw [if_pos rfl, empty]
  · rw [if_neg (by simp), dropPrefix?_append, Option.bind_some, dropSuffix?_append]

theorem position?_eq {report : Report} {line : Nat} (noFile : report.file? = none)
    (hasLine : report.line? = some line) :
    report.position? =
      some (Utf8.encode "line " ++ (decimal line ++ quotation report.excerpt)) := by
  have near : Utf8.encode " near " = Utf8.encode " " ++ Utf8.encode "near " := by decide +kernel
  rw [position?, fileClause?, lineClause?, nearClause?, noFile, hasLine, quotation]
  split <;> simp [near]

theorem render_eq {report : Report} {line : Nat} {fault : Fault} (noFile : report.file? = none)
    (hasLine : report.line? = some line) (isFault : report.message = fault.message) :
    report.render =
      Utf8.encode "[error " ++ (decimal report.number ++ (Utf8.encode "] line " ++
        (decimal line ++ (quotation report.excerpt ++ ending fault)))) := by
  have place : Utf8.encode "] line " = Utf8.encode "] " ++ Utf8.encode "line " := by decide +kernel
  rw [render, heading, position?_eq noFile hasLine, isFault, ending, place]
  simp only [List.append_assoc]

/-- No digit follows a number in a report. -/
theorem isDigit_head?_quotation_append (excerpt : Bytes) (fault : Fault) :
    ∀ byte ∈ (quotation excerpt ++ ending fault).head?, isDigit byte = false := by
  have near : Utf8.encode " near " = 0x20 :: Utf8.encode "near " := by decide +kernel
  have colon : Utf8.encode ": " = 0x3A :: Utf8.encode " " := by decide +kernel
  rw [quotation, ending, near, colon]
  split
  · rintro _ ⟨rfl⟩
    rfl
  · rintro _ ⟨rfl⟩
    rfl

/-- The report of a fault is read from its line. -/
theorem IsPlain.read?_render {report : Report} (isPlain : report.IsPlain) :
    read? report.render = some report := by
  obtain ⟨number, file?, line?, excerpt, message⟩ := report
  obtain ⟨rfl, ⟨line, rfl⟩, -, fault, rfl⟩ := isPlain
  have stops : ∀ byte ∈ (Utf8.encode "] line " ++ (decimal line ++
      (quotation excerpt ++ ending fault))).head?, isDigit byte = false := by
    have bracket : Utf8.encode "] line " = 0x5D :: Utf8.encode " line " := by decide +kernel
    rw [bracket]
    rintro _ ⟨rfl⟩
    rfl
  have numberRead := readNumber_decimal_append number stops
  have lineRead := readNumber_decimal_append line (isDigit_head?_quotation_append excerpt fault)
  rw [render_eq rfl rfl rfl, read?]
  simp only [dropPrefix?_append, numberRead, lineRead, readFault?_append, readQuotation?_quotation,
    Option.bind_eq_bind, Option.bind_some, Option.pure_def]

/-- Joined clauses have no byte that is neither in a clause nor in what separates
them. -/
theorem not_mem_of_mem_joinClauses {byte : UInt8} {separator : Bytes} {left right : Option Bytes}
    (inSeparator : byte ∉ separator) (inLeft : ∀ clause ∈ left, byte ∉ clause)
    (inRight : ∀ clause ∈ right, byte ∉ clause) :
    ∀ clause ∈ joinClauses separator left right, byte ∉ clause := by
  cases left with
  | none => exact inRight
  | some left =>
      cases right with
      | none => exact inLeft
      | some right =>
          rintro _ ⟨rfl⟩
          simp only [List.mem_append, not_or]
          exact ⟨⟨inLeft left rfl, inSeparator⟩, inRight right rfl⟩

theorem newline_not_mem_decimal (n : Nat) : newline ∉ decimal n := by
  intro member
  have isDigit := isDigit_of_mem_decimal member
  contradiction

/-- A report of parts without a newline is one line. -/
theorem exists_render_eq {report : Report} (inFile : ∀ name ∈ report.file?, newline ∉ name)
    (inExcerpt : newline ∉ report.excerpt) (inMessage : newline ∉ Utf8.encode report.message) :
    ∃ body, report.render = body ++ [newline] ∧ newline ∉ body := by
  have inFixed : newline ∉ Utf8.encode "[error " ∧ newline ∉ Utf8.encode "] " ∧
      newline ∉ Utf8.encode "file " ∧ newline ∉ Utf8.encode ", " ∧ newline ∉ Utf8.encode "line " ∧
      newline ∉ Utf8.encode " " ∧ newline ∉ Utf8.encode "near " ∧ newline ∉ [quote] ∧
      newline ∉ Utf8.encode ": " := by
    decide +kernel
  obtain ⟨inStart, inBracket, inFileWord, inComma, inLineWord, inSpace, inNearWord, inQuote,
    inColon⟩ := inFixed
  have inFileClause : ∀ clause ∈ report.fileClause?, newline ∉ clause := by
    intro clause isClause
    obtain ⟨name, isName, rfl⟩ := Option.map_eq_some_iff.mp isClause
    exact List.not_mem_append inFileWord (inFile name isName)
  have inLineClause : ∀ clause ∈ report.lineClause?, newline ∉ clause := by
    intro clause isClause
    obtain ⟨line, -, rfl⟩ := Option.map_eq_some_iff.mp isClause
    exact List.not_mem_append inLineWord (newline_not_mem_decimal line)
  have inNearClause : ∀ clause ∈ report.nearClause?, newline ∉ clause := by
    intro clause isClause
    rw [nearClause?] at isClause
    split at isClause
    · contradiction
    · obtain rfl := Option.some.inj isClause
      exact List.not_mem_append
        (List.not_mem_append (List.not_mem_append inNearWord inQuote) inExcerpt) inQuote
  have inPosition : ∀ clause ∈ report.position?, newline ∉ clause :=
    not_mem_of_mem_joinClauses inSpace
      (not_mem_of_mem_joinClauses inComma inFileClause inLineClause) inNearClause
  have inHeading : newline ∉ report.heading := by
    rw [heading]
    split
    · exact List.not_mem_nil
    · rename_i position isPosition
      exact List.not_mem_append (inPosition position isPosition) inColon
  refine ⟨_, rfl, ?_⟩
  exact List.not_mem_append
    (List.not_mem_append
      (List.not_mem_append (List.not_mem_append inStart (newline_not_mem_decimal _)) inBracket)
      inHeading)
    inMessage

/-- A report of a fault is one line. -/
theorem IsPlain.exists_render_eq {report : Report} (isPlain : report.IsPlain) :
    ∃ body, report.render = body ++ [newline] ∧ newline ∉ body := by
  obtain ⟨number, file?, line?, excerpt, message⟩ := report
  obtain ⟨rfl, -, inExcerpt, fault, rfl⟩ := isPlain
  have inMessage : ∀ fault ∈ faults, newline ∉ Utf8.encode fault.message := by decide +kernel
  exact Report.exists_render_eq nofun inExcerpt (inMessage fault (mem_faults fault))

/-! ## Reading a text of reports -/

section

variable {reports : List Report}

/-- A text of reports is cut into their lines. -/
theorem lines_flatMap_render (plain : ∀ report ∈ reports, report.IsPlain) :
    lines (reports.flatMap render) = reports.map render := by
  induction reports with
  | nil => rfl
  | cons report reports ih =>
      obtain ⟨isPlain, plain⟩ := List.forall_mem_cons.mp plain
      obtain ⟨body, render_eq, noNewline⟩ := isPlain.exists_render_eq
      rw [List.flatMap_cons, List.map_cons, ← ih plain, render_eq, List.append_assoc]
      exact lines_append_newline noNewline _

/-- Reports are read from the text of them. -/
theorem readAll?_flatMap_render (plain : ∀ report ∈ reports, report.IsPlain) :
    readAll? (reports.flatMap render) = some reports := by
  rw [readAll?, lines_flatMap_render plain]
  induction reports with
  | nil => rfl
  | cons report reports ih =>
      obtain ⟨isPlain, plain⟩ := List.forall_mem_cons.mp plain
      rw [List.map_cons, List.mapM_cons, isPlain.read?_render, ih plain]
      rfl

/-- A text of reports has a newline for each of them. -/
theorem count_newline_flatMap_render (plain : ∀ report ∈ reports, report.IsPlain) :
    (reports.flatMap render).count newline = reports.length := by
  induction reports with
  | nil => rfl
  | cons report reports ih =>
      obtain ⟨isPlain, plain⟩ := List.forall_mem_cons.mp plain
      obtain ⟨body, render_eq, noNewline⟩ := isPlain.exists_render_eq
      rw [List.flatMap_cons, List.count_append, ih plain, render_eq, List.count_append,
        List.count_eq_zero_of_not_mem noNewline, List.count_singleton_self, List.length_cons,
        Nat.zero_add, Nat.add_comm]

/-- A text of reports has no line but complete ones. -/
theorem flatMap_render_mem_completeTexts (plain : ∀ report ∈ reports, report.IsPlain) :
    reports.flatMap render ∈ completeTexts := by
  induction reports with
  | nil => exact Or.inl rfl
  | cons report reports ih =>
      obtain ⟨isPlain, plain⟩ := List.forall_mem_cons.mp plain
      obtain ⟨body, render_eq, -⟩ := isPlain.exists_render_eq
      rw [List.flatMap_cons, render_eq, List.append_assoc]
      exact append_newline_mem_completeTexts_iff.mpr (ih plain)

end

end MinBasic.Diagnostic.Report
