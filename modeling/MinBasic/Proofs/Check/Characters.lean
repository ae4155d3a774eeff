import MinBasic.Proofs.Check.Alike
import MinBasic.Proofs.Check.Decodable
import MinBasic.Proofs.Lexical.Characters

/-!
# Characters in the reports of a pass

On UTF-8 text no span that a scan gives cuts a character, and an unexpected
character is one fault.  Its report quotes the whole character, since no character
is as long as the excerpt may be; only a NUL is not quoted.
-/

namespace MinBasic.Check

open Channel Diagnostic Lexical Text
open Text.Ascii (nul newline)
open Text.Utf8 (encodeChars isAsciiBlank)

/-! ## Quoted characters -/

/-- The excerpt of a character that is not blank is the character, unless it is a NUL. -/
theorem excerpt_utf8EncodeChar {c : Char} (notBlank : isAsciiBlank c = false) (line : Int) :
    Cursor.excerpt ⟨line, String.utf8EncodeChar c⟩ =
      if c.toNat = 0 then [] else String.utf8EncodeChar c := by
  have size : (String.utf8EncodeChar c).length ≤ Cursor.excerptLimit := by
    rw [String.length_utf8EncodeChar]
    exact c.utf8Size_le_four.trans (by decide)
  rw [Cursor.excerpt, List.take_of_length_le size]
  have shape := Utf8.characterBytes c
  generalize String.utf8EncodeChar c = bytes at shape
  cases shape with
  | ascii small =>
      have isNul : UInt8.ofNat c.toNat = nul ↔ c.toNat = 0 := by
        rw [← UInt8.toNat_inj, UInt8.toNat_ofNat', Nat.mod_eq_of_lt (by omega)]
        rfl
      have noNewline : UInt8.ofNat c.toNat ≠ newline := by
        intro isNewline
        have shape := Utf8.CharacterBytes.ascii small
        rw [← shape.isBlank_eq, isNewline] at notBlank
        contradiction
      split
      · rename_i zero
        rw [isNul.mpr zero]
        rfl
      · rename_i nonzero
        simp [Cursor.isExcerptByte, mt isNul.mp nonzero, noNewline]
  | @multi lead trail large isLead continued =>
      have nonzero : c.toNat ≠ 0 := by omega
      have quoted : ∀ byte ∈ lead :: trail, Cursor.isExcerptByte byte = true := by
        intro byte member
        rw [Cursor.isExcerptByte, Bool.and_eq_true, decide_eq_true_eq, decide_eq_true_eq]
        rcases List.mem_cons.mp member with rfl | member
        · constructor <;> rintro rfl <;> exact absurd isLead (by decide)
        · have isContinued := continued byte member
          constructor <;> rintro rfl <;> exact absurd isContinued (by decide)
      rw [if_neg nonzero, List.takeWhile_eq_self_iff.mpr quoted]

variable {text : String} {refusal? : Option Refusal} {finding : Finding}

/-- The lines that are read from UTF-8 text are made of its characters. -/
theorem exists_of_mem_lines_received {line : Bytes}
    (member : line ∈ lines (Input.received ⟨Utf8.encode text, refusal?⟩)) :
    ∃ chars, line = encodeChars chars ∧ chars ⊆ text.toList := by
  rw [Input.lines_received] at member
  have inText : line ∈ lines (encodeChars text.toList) := by
    cases refusal? with
    | none => exact member
    | some refusal => exact List.mem_of_mem_filter member
  exact Utf8.exists_of_mem_lines inText

/-- The text of an unexpected character is a character, and its report quotes the
whole of it. -/
theorem exists_character_of_mem_findings
    (member : finding ∈ findings (marks (Input.received ⟨Utf8.encode text, refusal?⟩)))
    (isFault : finding.fault = .unexpectedCharacter) :
    ∃ c ∈ text.toList, finding.text = String.utf8EncodeChar c ∧
      ∀ line : Int, Cursor.excerpt ⟨line, finding.text⟩ =
        if c.toNat = 0 then [] else String.utf8EncodeChar c := by
  obtain ⟨content, contentMem, lexeme, lexemeMem, reading_eq, text_eq⟩ :=
    exists_lexeme_of_mem_findings member
  obtain ⟨chars, rfl, subset⟩ := exists_of_mem_lines_received contentMem
  rw [isFault] at reading_eq
  have covers : CoversCharacters chars lexeme := by
    apply (Place.atBoundary_opening chars).calls (lexemes (encodeChars chars)).length
    rw [lexemes, (Place.opening (encodeChars chars)).calls_length_lexemes.1]
    exact lexemeMem
  obtain ⟨c, inLine, character_eq⟩ := covers.unexpected reading_eq
  obtain ⟨byte, rest, cons_eq, notBlank, -⟩ := exists_text_eq_cons_of_fault lexemeMem reading_eq
  have shape := Utf8.characterBytes c
  rw [← character_eq, cons_eq] at shape
  rw [shape.isBlank_eq] at notBlank
  rw [text_eq] at character_eq
  refine ⟨c, subset inLine, character_eq, ?_⟩
  intro line
  rw [character_eq]
  exact excerpt_utf8EncodeChar notBlank line

/-- The excerpt of a report, if the reports are listed beside their faults. -/
theorem excerpt_of_mem_zip {found : List Finding} {source? : Option String} {line : Int}
    {errors : Nat} {report : Report}
    (member : (finding, report) ∈ found.zip (reports source? line errors found)) :
    finding ∈ found ∧ ∃ line : Int, report.excerpt = Cursor.excerpt ⟨line, finding.text⟩ := by
  refine ⟨(List.of_mem_zip member).1, ?_⟩
  obtain ⟨index, at_index⟩ := List.mem_iff_getElem?.mp member
  obtain ⟨finding_at, report_at⟩ := List.getElem?_zip_eq_some.mp at_index
  rw [reports, List.getElem?_map, List.getElem?_zipIdx, finding_at] at report_at
  exact ⟨_, congrArg Report.excerpt (Option.some.inj report_at).symm⟩

/-! ## Scans and passes over UTF-8 text -/

/-- Characters are never split.  On UTF-8 text every call covers whole characters,
and the fault of an unexpected character covers a single one.  These are exactly the
characters that are no ASCII blanks and stand outside all tokens and other faults.
A pass over UTF-8 text, whole or cut off, and on any stream, writes one report for
every fault; that of an unexpected character quotes the whole character, or nothing
if it is a NUL. -/
theorem characters_not_split (text : String) :
    let chars := text.toList
    let bytes := Utf8.encode text
    (∀ count, ∀ lexeme ∈ (Place.opening bytes).calls count,
      IsBoundary chars lexeme.start ∧ IsBoundary chars lexeme.stop ∧
        (lexeme.reading = .fault .unexpectedCharacter →
          ∃ c ∈ chars, lexeme.text = String.utf8EncodeChar c)) ∧
    ((unexpected (lexemes bytes)).map (fun lexeme => (lexeme.start, lexeme.text)) =
      (strays (lexemes bytes) (placed 0 chars)).map
        fun character => (character.1, String.utf8EncodeChar character.2)) ∧
    (unexpected (lexemes bytes)).length = (strays (lexemes bytes) (placed 0 chars)).length ∧
    ∀ (pass : Pass) (sink : Sink) (source? : Option String) (refusal? : Option Refusal),
      let input : Input := ⟨bytes, refusal?⟩
      let found := findings (marks input.received)
      let reported := reports source? pass.cursor.line pass.errors found
      (pass.parse ⟨sink, source?⟩ input).output =
          (sink.write (reported.flatMap Report.render)).stored ∧
        reported.length = found.length ∧
        ∀ pair ∈ found.zip reported, pair.1.fault = .unexpectedCharacter →
          ∃ c ∈ chars, pair.1.text = String.utf8EncodeChar c ∧
            pair.2.excerpt = if c.toNat = 0 then [] else String.utf8EncodeChar c := by
  intro chars bytes
  have counted := @Place.map_unexpected_lexemes (Place.opening bytes) chars rfl
  refine ⟨?_, counted, ?_, ?_⟩
  · intro count lexeme member
    obtain ⟨start, stop, unexpected⟩ := (Place.atBoundary_opening chars).calls count lexeme member
    exact ⟨start, stop, unexpected⟩
  · have length_eq := congrArg List.length counted
    rwa [List.length_map, List.length_map] at length_eq
  · intro pass sink source? refusal? input found reported
    refine ⟨?_, length_reports .., ?_⟩
    · rw [(Pass.parse_eq_write pass sink source? input).1, (pass.parse_received _ input).1,
        (pass.parse_eq_reports source? input.received).2]
    · rintro ⟨finding, report⟩ member isFault
      obtain ⟨isFinding, line, quoted⟩ := excerpt_of_mem_zip member
      obtain ⟨c, inText, text_eq, excerpt_eq⟩ := exists_character_of_mem_findings isFinding isFault
      exact ⟨c, inText, text_eq, quoted.trans (excerpt_eq line)⟩

/-- A character of two bytes on its own, a NUL, and the same character in a string. -/
example :
    (unexpected (lexemes (Utf8.encode "A \u00e9 \x00 \"\u00e9\""))).map (fun lexeme =>
      (lexeme.start, lexeme.text)) = [(2, [0xC3, 0xA9]), (5, [0])] := by
  decide +kernel

end MinBasic.Check
