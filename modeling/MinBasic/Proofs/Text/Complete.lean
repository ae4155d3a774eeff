import MinBasic.Proofs.Lexical.LongestPrefix
import MinBasic.Proofs.Text.Cut

/-!
# Texts of complete lines

A text that is empty or ends in a newline has only complete lines.  Every text
is such a text, the longest prefix of this kind, and a tail without a newline;
the lines of that prefix are the complete lines of the text.
-/

namespace MinBasic.Text

open Ascii Lexical

/-- The texts that are empty or end in a newline. -/
def completeTexts : Language UInt8 :=
  {text | text = [] ∨ isEnded text = true}

/-- A complete line in front does not change whether a text is complete. -/
theorem append_newline_mem_completeTexts_iff {line rest : Bytes} :
    line ++ newline :: rest ∈ completeTexts ↔ rest ∈ completeTexts := by
  change _ ∨ isEnded _ = true ↔ _ ∨ isEnded _ = true
  rw [isEnded_iff, isEnded_iff]
  rcases List.eq_nil_or_concat rest with rfl | ⟨before, last, rfl⟩
  · simp
  · rw [List.concat_eq_append, ← List.cons_append, ← List.append_assoc, List.getLast?_concat,
      List.getLast?_concat]
    simp

/-- The longest prefix of complete lines is followed by a tail without a
newline. -/
theorem isLongestPrefix_completeTexts {whole tail : Bytes} (complete : whole ∈ completeTexts)
    (noNewline : newline ∉ tail) :
    IsLongestPrefix completeTexts (whole ++ tail) whole where
  mem := complete
  within := List.prefix_append whole tail
  longest := by
    intro other otherMem otherWithin
    by_contra longer
    obtain ⟨extra, rfl⟩ := List.prefix_of_prefix_length_le (List.prefix_append whole tail)
      otherWithin (Nat.le_of_lt (Nat.lt_of_not_le longer))
    have extraWithin : extra <+: tail := (List.prefix_append_right_inj whole).mp otherWithin
    rcases List.eq_nil_or_concat extra with rfl | ⟨before, last, rfl⟩
    · simp at longer
    · rcases otherMem with none | ended
      · simp at none
      · have isNewline : last = newline := by simpa [isEnded_iff] using ended
        exact noNewline (extraWithin.subset (by simp [isNewline]))

/-- Every text is made of complete lines and a tail without a newline. -/
theorem exists_complete_append (text : Bytes) :
    ∃ whole tail, whole ∈ completeTexts ∧ newline ∉ tail ∧ text = whole ++ tail := by
  have cut := cutInto_lines text
  generalize lines text = cutLines at cut
  induction cut with
  | nothing => exact ⟨[], [], Or.inl rfl, List.not_mem_nil, rfl⟩
  | @unended line _ noNewline => exact ⟨[], line, Or.inl rfl, noNewline, rfl⟩
  | @ended line _ _ _ _ ih =>
      obtain ⟨whole, tail, complete, noNewline, rfl⟩ := ih
      exact ⟨line ++ newline :: whole, tail, append_newline_mem_completeTexts_iff.mpr complete,
        noNewline, by simp⟩

/-- The lines of a complete text are ended. -/
theorem isEnded_of_mem_lines {whole line : Bytes} (complete : whole ∈ completeTexts)
    (member : line ∈ lines whole) : isEnded line = true := by
  have cut := cutInto_lines whole
  generalize lines whole = cutLines at cut member
  induction cut with
  | nothing => contradiction
  | unended nonempty noNewline =>
      rcases complete with none | ended
      · exact absurd none nonempty
      · exact absurd (newline_mem_of_isEnded ended) noNewline
  | ended _ _ ih =>
      rcases List.mem_cons.mp member with rfl | member
      · simp [isEnded]
      · exact ih (append_newline_mem_completeTexts_iff.mp complete) member

/-- The complete lines of a text are those before its tail. -/
theorem filter_isEnded_lines {whole tail : Bytes} (complete : whole ∈ completeTexts)
    (noNewline : newline ∉ tail) :
    (lines (whole ++ tail)).filter isEnded = lines whole := by
  have wholeKept : (lines whole).filter isEnded = lines whole :=
    List.filter_eq_self.mpr fun _ => isEnded_of_mem_lines complete
  have tailLost : (lines tail).filter isEnded = [] := by
    by_cases none : tail = []
    · rw [none]
      rfl
    · rw [lines_eq_singleton none noNewline]
      exact List.filter_cons_of_neg (mt newline_mem_of_isEnded noNewline)
  rw [lines_append complete, List.filter_append, wholeKept, tailLost, List.append_nil]

end MinBasic.Text
