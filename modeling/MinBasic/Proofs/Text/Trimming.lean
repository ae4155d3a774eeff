import Mathlib.Data.List.TakeWhile
import MinBasic.Proofs.Text.CharCase
import MinBasic.Text.Blank

/-!
# Blanks around a text

Trimming takes away the longest runs of blanks at the two ends of a text and nothing between
them: what is left is the one part of the text that has blanks only around it and none at its own
ends.  No letter is blank in either case, so trimming and lower case can be done in either order.
-/

namespace MinBasic.Text

/-- A text with no blank at its start and none at its end. -/
def IsTrimmed (text : List Char) : Prop :=
  (∀ c ∈ text.head?, isBlankChar c = false) ∧ ∀ c ∈ text.getLast?, isBlankChar c = false

variable {text before after inner : List Char}

/-! ## One end -/

theorem trimStart_append (blank : ∀ c ∈ before, isBlankChar c = true) (text : List Char) :
    trimStart (before ++ text) = trimStart text :=
  List.dropWhile_append_of_pos blank

theorem trimEnd_append (text : List Char) (blank : ∀ c ∈ after, isBlankChar c = true) :
    trimEnd (text ++ after) = trimEnd text := by
  have blank' : ∀ c ∈ after.reverse, isBlankChar c = true := by simpa using blank
  rw [trimEnd, List.reverse_append, trimStart_append blank', trimEnd]

/-- Blanks at the end are seen by trimming the start only if nothing else is there. -/
theorem trimStart_append_eq_append (text : List Char) (blank : ∀ c ∈ after, isBlankChar c = true) :
    ∃ after', (∀ c ∈ after', isBlankChar c = true) ∧
      trimStart (text ++ after) = trimStart text ++ after' := by
  rw [trimStart, List.dropWhile_append, trimStart]
  by_cases empty : (text.dropWhile isBlankChar).isEmpty
  · rw [if_pos empty, List.isEmpty_iff.mp empty, List.dropWhile_eq_nil_iff.mpr blank]
    exact ⟨[], nofun, rfl⟩
  · rw [if_neg empty]
    exact ⟨after, blank, rfl⟩

theorem exists_trimStart (text : List Char) :
    ∃ before, (∀ c ∈ before, isBlankChar c = true) ∧ text = before ++ trimStart text :=
  ⟨text.takeWhile isBlankChar, fun _ => List.mem_takeWhile_imp,
    List.takeWhile_append_dropWhile.symm⟩

theorem exists_trimEnd (text : List Char) :
    ∃ after, (∀ c ∈ after, isBlankChar c = true) ∧ text = trimEnd text ++ after := by
  obtain ⟨before, blank, split⟩ := exists_trimStart text.reverse
  refine ⟨before.reverse, by simpa using blank, ?_⟩
  rw [trimEnd, ← List.reverse_append, ← split, List.reverse_reverse]

theorem isBlankChar_of_mem_head?_trimStart {c : Char} (isFirst : c ∈ (trimStart text).head?) :
    isBlankChar c = false := by
  have noBlank := List.head?_dropWhile_not isBlankChar text
  rwa [show (text.dropWhile isBlankChar).head? = some c from isFirst] at noBlank

/-! ## Both ends -/

/-- Blanks around a text do not matter to what is left of it. -/
theorem trim_surrounded (blankBefore : ∀ c ∈ before, isBlankChar c = true) (text : List Char)
    (blankAfter : ∀ c ∈ after, isBlankChar c = true) :
    trim (before ++ text ++ after) = trim text := by
  obtain ⟨after', blank', split⟩ := trimStart_append_eq_append text blankAfter
  rw [trim, List.append_assoc, trimStart_append blankBefore, split, trimEnd_append _ blank', trim]

theorem isTrimmed_trim (text : List Char) : IsTrimmed (trim text) := by
  constructor
  · intro c isFirst
    obtain ⟨after, -, split⟩ := exists_trimEnd (trimStart text)
    have isFirst' : c ∈ (trimStart text).head? := by
      rw [split, List.head?_append, show (trimEnd (trimStart text)).head? = some c from isFirst]
      rfl
    exact isBlankChar_of_mem_head?_trimStart isFirst'
  · intro c isLast
    rw [trim, trimEnd, List.getLast?_reverse] at isLast
    exact isBlankChar_of_mem_head?_trimStart isLast

theorem exists_trim (text : List Char) :
    ∃ before after, (∀ c ∈ before, isBlankChar c = true) ∧ (∀ c ∈ after, isBlankChar c = true) ∧
      text = before ++ trim text ++ after := by
  obtain ⟨before, blankBefore, split⟩ := exists_trimStart text
  obtain ⟨after, blankAfter, split'⟩ := exists_trimEnd (trimStart text)
  refine ⟨before, after, blankBefore, blankAfter, ?_⟩
  rw [List.append_assoc, trim, ← split', ← split]

/-- A trimmed text is left as it is. -/
theorem IsTrimmed.trim_eq (isTrimmed : IsTrimmed text) : trim text = text := by
  obtain ⟨before, after, blankBefore, blankAfter, split⟩ := exists_trim text
  obtain rfl : before = [] := by
    cases before with
    | nil => rfl
    | cons c before =>
        have noBlank := isTrimmed.1 c (by rw [split]; rfl)
        rw [blankBefore c List.mem_cons_self] at noBlank
        cases noBlank
  obtain rfl : after = [] := by
    rcases List.eq_nil_or_concat after with rfl | ⟨after, c, rfl⟩
    · rfl
    · have noBlank := isTrimmed.2 c (by rw [split]; simp)
      rw [blankAfter c (by simp)] at noBlank
      cases noBlank
  simpa using split.symm

/-- What is left of a text is the one trimmed part of it with blanks only around it. -/
theorem trim_eq_iff :
    trim text = inner ↔
      IsTrimmed inner ∧ ∃ before after, (∀ c ∈ before, isBlankChar c = true) ∧
        (∀ c ∈ after, isBlankChar c = true) ∧ text = before ++ inner ++ after := by
  constructor
  · rintro rfl
    exact ⟨isTrimmed_trim text, exists_trim text⟩
  · rintro ⟨isTrimmed, before, after, blankBefore, blankAfter, rfl⟩
    rw [trim_surrounded blankBefore inner blankAfter, isTrimmed.trim_eq]

/-! ## Letter case -/

/-- No letter is blank. -/
theorem isBlankChar_toLower (c : Char) : isBlankChar c.toLower = isBlankChar c := by
  by_cases isCapital : 'A' ≤ c ∧ c ≤ 'Z'
  · have bounds : 65 ≤ c.toNat ∧ c.toNat ≤ 90 :=
      ⟨le_iff_toNat_le.mp isCapital.1, le_iff_toNat_le.mp isCapital.2⟩
    have notBlank {d : Char} (low : 33 ≤ d.toNat) (high : d.toNat ≤ 126) :
        isBlankChar d = false := by
      simp only [isBlankChar, Bool.or_eq_false_iff, Bool.and_eq_false_iff, decide_eq_false_iff_not]
      omega
    have lowered : c.toLower.toNat = c.toNat + 32 := by rw [toNat_toLower, if_pos isCapital]
    rw [notBlank (by omega) (by omega), notBlank (by omega) (by omega)]
  · rw [toLower_eq_iff.mpr (.other isCapital)]

theorem trimStart_map_toLower (text : List Char) :
    trimStart (text.map Char.toLower) = (trimStart text).map Char.toLower := by
  have same : isBlankChar ∘ Char.toLower = isBlankChar := funext isBlankChar_toLower
  rw [trimStart, List.dropWhile_map, same, trimStart]

/-- A text can be trimmed before or after it is put in lower case. -/
theorem trim_map_toLower (text : List Char) :
    trim (text.map Char.toLower) = (trim text).map Char.toLower := by
  simp only [trim, trimEnd, trimStart_map_toLower, ← List.map_reverse]

end MinBasic.Text
