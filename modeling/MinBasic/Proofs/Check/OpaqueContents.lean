import MinBasic.Proofs.Check.Alike
import MinBasic.Proofs.Lexical.Contents

/-!
# What stands in strings and remarks does not matter to a pass

A line with other bytes in a closed string or as a remark has lexemes that a pass
cannot tell from those of the line, and it ends like the line.  So it can be put
in the place of the line in any input.
-/

namespace MinBasic.Check

open Channel Diagnostic Lexical Text
open Text.Ascii (newline)

/-! ## Lines in place of others -/

/-- The lines that an input gives are still alike when one of them is replaced by a
line that is alike and ends alike. -/
theorem forall₂_linesAlike_of_standsFor {content line line' : Bytes} {above below : List Bytes}
    (cut : lines content = above ++ line :: below) (standsFor : StandsFor line line')
    (alike : LinesAlike SameExcerpt line line') (refusal? : Option Refusal) :
    List.Forall₂ (LinesAlike SameExcerpt) (Input.lines ⟨content, refusal?⟩)
      (Input.lines ⟨(above ++ line' :: below).flatten, refusal?⟩) := by
  have same : ∀ others : List Bytes, List.Forall₂ (LinesAlike SameExcerpt) others others :=
    fun others => List.forall₂_same.mpr fun line _ => .refl line
  have cut' : lines (above ++ line' :: below).flatten = above ++ line' :: below :=
    (cutInto_iff.mp ((cutInto_iff.mpr cut.symm).replace standsFor)).symm
  cases refusal? with
  | none =>
      rw [Input.lines_of_content, Input.lines_of_content, cut, cut']
      exact List.rel_append (same above) (.cons alike (same below))
  | some refusal =>
      simp only [Input.lines, cut, cut', List.filter_append, List.filter_cons, standsFor.ended]
      apply List.rel_append (same _)
      split
      · exact .cons alike (same _)
      · exact same _

/-- A refilled line has lexemes that a pass cannot tell from those of the line. -/
theorem linesAlike_of_refills {line line' : Bytes} {lexeme lexeme' : Lexeme}
    {before later : List Lexeme} (refills : Refills line lexeme line' lexeme')
    (oneLine : newline ∉ line.dropLast) (split : lexemes line = before ++ lexeme :: later) :
    LinesAlike SameExcerpt line line' := by
  obtain ⟨-, -, split'⟩ := refills.lexemes_eq oneLine split
  obtain ⟨token, isToken⟩ := refills.exists_token
  rw [LinesAlike, split, split']
  apply List.rel_append (List.forall₂_same.mpr fun _ _ => .of_eq rfl rfl)
  constructor
  · refine ⟨refills.reading_eq.1.symm, fun isFault => ?_⟩
    rw [isToken] at isFault
    cases isFault
  · apply List.forall₂_map_right_iff.mpr
    exact List.forall₂_same.mpr fun _ _ => .of_eq rfl rfl

/-! ## Refilled inputs -/

/-- What stands in closed strings and in remarks is opaque.  Other bytes in their
place, which do not end them and do not go on with the keyword of the remark, are
read as the same token.  The results before it do not change, and those behind it
are moved by the change of length.  No fault lies within the string or the remark,
and a pass over an input with such a change in one of its lines gives the same. -/
theorem contents_opaque {line line' : Bytes} {lexeme lexeme' : Lexeme} {before later : List Lexeme}
    (oneLine : newline ∉ line.dropLast) (split : scan line = before ++ lexeme :: later)
    (refills : Refills line lexeme line' lexeme') :
    (lexeme'.reading = lexeme.reading ∧ lexeme'.start = lexeme.start ∧
      scan line' = before ++ lexeme' ::
        later.map (Lexeme.moved lexeme.text.length lexeme'.text.length)) ∧
    (∀ other ∈ scan line, ∀ fault, other.reading = .fault fault →
      other.stop ≤ lexeme.start ∨ lexeme.stop ≤ other.start) ∧
    ∀ {content : Bytes} {above below : List Bytes}, lines content = above ++ line :: below →
      ∀ (pass : Pass) (reporter : Reporter) (refusal? : Option Refusal),
        let parsed := pass.parse reporter ⟨content, refusal?⟩
        let parsed' := pass.parse reporter ⟨(above ++ line' :: below).flatten, refusal?⟩
        parsed'.output = parsed.output ∧ parsed'.result = parsed.result ∧
          parsed'.state.errors = parsed.state.errors ∧
          parsed'.state.tokens = parsed.state.tokens := by
  obtain ⟨token, isToken⟩ := refills.exists_token
  refine ⟨⟨refills.reading_eq.1, refills.reading_eq.2, refills.scan_eq oneLine split⟩, ?_, ?_⟩
  · intro other member fault isFault
    have apart := pairwise_scan line
    rw [split, List.pairwise_append, List.pairwise_cons] at apart
    obtain ⟨-, ⟨behind, -⟩, ahead⟩ := apart
    rw [split, List.mem_append, List.mem_cons] at member
    rcases member with member | rfl | member
    · exact Or.inl (ahead other member lexeme List.mem_cons_self)
    · rw [isToken] at isFault
      cases isFault
    · exact Or.inr (behind other member)
  · intro content above below cut pass reporter refusal? parsed parsed'
    obtain ⟨later, -, split⟩ := exists_lexemes_eq_of_scan_eq split (by rw [isToken]; nofun)
    have alike := forall₂_linesAlike_of_standsFor cut (refills.lexemes_eq oneLine split).1
      (linesAlike_of_refills refills oneLine split) refusal?
    obtain ⟨state, -, output, -, result⟩ :=
      Parsed.finished_eq_iff.mp (Pass.finished_parse (Eq.refl refusal?) alike pass reporter)
    obtain ⟨errors, -, tokens⟩ := Pass.finish_eq_iff.mp state
    exact ⟨output.symm, result.symm, errors.symm, tokens.symm⟩

/-- A string that is filled with the keyword of a remark and what might continue a
number. -/
theorem contents_opaque_of_print :
    let line := Utf8.encode "10 PRINT \"A\"?\n"
    let line' := Utf8.encode "10 PRINT \"REM 1E\"?\n"
    let lexeme : Lexeme := ⟨.terminal .quotedString, 9, Utf8.encode "\"A\""⟩
    let lexeme' : Lexeme := ⟨.terminal .quotedString, 9, Utf8.encode "\"REM 1E\""⟩
    let before := (scan line).take 2
    let later := (scan line).drop 3
    newline ∉ line.dropLast ∧ scan line = before ++ lexeme :: later ∧
      Refills line lexeme line' lexeme' ∧
      scan line' = before ++ lexeme' :: later.map (Lexeme.moved 3 8) ∧
      (∀ other ∈ scan line, ∀ fault, other.reading = .fault fault →
        other.stop ≤ 9 ∨ 12 ≤ other.start) ∧
      lines (line ++ Utf8.encode "20 END") = [] ++ line :: [Utf8.encode "20 END"] ∧
      (Pass.parse {} ⟨.unlimited, none⟩ ⟨line' ++ Utf8.encode "20 END", none⟩).output =
        (Pass.parse {} ⟨.unlimited, none⟩ ⟨line ++ Utf8.encode "20 END", none⟩).output := by
  intro line line' lexeme lexeme' before later
  have oneLine : newline ∉ line.dropLast := by decide +kernel
  have split : scan line = before ++ lexeme :: later := by decide +kernel
  have refills : Refills line lexeme line' lexeme' :=
    @Refills.string line lexeme (Utf8.encode "REM 1E") rfl (by decide +kernel)
  obtain ⟨⟨-, -, scan_eq⟩, apart, run⟩ := contents_opaque oneLine split refills
  have cut : lines (line ++ Utf8.encode "20 END") = [] ++ line :: [Utf8.encode "20 END"] := by
    decide +kernel
  exact ⟨oneLine, split, refills, scan_eq, apart, cut, (run cut {} ⟨.unlimited, none⟩ none).1⟩

end MinBasic.Check
