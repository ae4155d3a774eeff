import MinBasic.Proofs.Lexical.Calls
import MinBasic.Proofs.Lexical.Spelling

/-!
# The reference lexer

What a call on a text must give, told from the text and the call before it.
Right after the keyword of a remark that is the remark; after anything else it
is the reading that the rules spell at the first byte that is not blank.  A run
of calls gives exactly these answers.
-/

namespace MinBasic.Lexical

open Computability Text.Ascii

/-! ## A call by the rules -/

namespace Place

/-- In a remark the next lexeme is the rest of the line, blanks and all. -/
theorem lexeme_of_remark {place : Place} (isRemark : place.mode = .remark) :
    place.lexeme =
      ⟨.terminal .remarkString, place.offset, place.rest.takeWhile (· ≠ newline)⟩ := by
  have noBlanks : place.blanks = 0 := by rw [blanks, isRemark]
  have ahead_eq : place.ahead = place.rest := by rw [ahead, noBlanks, List.drop_zero]
  rw [lexeme, recognition, isRemark, noBlanks, ahead_eq]
  simp only [Recognition.ofText, Recognition.remark, Nat.add_zero, Lexeme.mk.injEq, true_and]
  exact (List.prefix_iff_eq_take.mp (List.takeWhile_prefix _)).symm

/-- A fault is no remark. -/
theorem noRemark_of_fault {place : Place} {fault : Fault}
    (isFault : place.lexeme.reading = .fault fault) : place.mode ≠ .remark := by
  intro isRemark
  rw [lexeme_of_remark isRemark] at isFault
  cases isFault

/-- The longest run of bytes without a newline is the remark. -/
theorem lexeme_of_body {place : Place} {body after : Bytes} (isRemark : place.mode = .remark)
    (left : place.rest = body ++ after)
    (longest : IsLongestPrefix (ofClass (· ≠ newline))∗ (body ++ after) body) :
    place.lexeme = ⟨.terminal .remarkString, place.offset, body⟩ ∧ place.next.rest = after := by
  have isBody : place.lexeme = ⟨.terminal .remarkString, place.offset, body⟩ := by
    rw [lexeme_of_remark isRemark, left, ← longest.eq_takeWhile]
  have noBlanks : place.blanks = 0 := by rw [blanks, isRemark]
  have split := place.rest_eq
  rw [noBlanks, isBody, left] at split
  exact ⟨isBody, (List.append_cancel_left split).symm⟩

/-- A remark is the longest run of bytes without a newline. -/
theorem isLongestPrefix_remark {place : Place} (isRemark : place.mode = .remark) :
    IsLongestPrefix (ofClass (· ≠ newline))∗ (place.lexeme.text ++ place.next.rest)
      place.lexeme.text := by
  have noBlanks : place.blanks = 0 := by rw [blanks, isRemark]
  have split := place.rest_eq
  rw [noBlanks, List.take_zero, List.nil_append] at split
  rw [← split, lexeme_of_remark isRemark]
  exact IsLongestPrefix.takeWhile _ _

/-- Outside a remark the blanks before the next lexeme are the longest run of them. -/
theorem isLongestPrefix_blanks {place : Place} (noRemark : place.mode ≠ .remark) :
    IsLongestPrefix (ofClass isBlank)∗ place.rest (place.rest.take place.blanks) := by
  have blanks_eq : place.blanks = (place.rest.takeWhile isBlank).length := by
    unfold blanks
    split
    · contradiction
    · rfl
  rw [blanks_eq, ← List.prefix_iff_eq_take.mp (List.takeWhile_prefix _)]
  exact IsLongestPrefix.takeWhile isBlank place.rest

/-- Those blanks stop at the next lexeme. -/
theorem isLongestPrefix_blanks_append {place : Place} (noRemark : place.mode ≠ .remark) :
    IsLongestPrefix (ofClass isBlank)∗
      (place.rest.take place.blanks ++ (place.lexeme.text ++ place.next.rest))
      (place.rest.take place.blanks) := by
  rw [← place.rest_eq]
  exact isLongestPrefix_blanks noRemark

/-- Outside a remark the next lexeme is recognised as in a statement. -/
theorem recognition_eq {place : Place} (noRemark : place.mode ≠ .remark) :
    place.recognition = Recognition.statement (place.mode = .opening) place.ahead := by
  unfold recognition
  cases mode : place.mode with
  | opening => rfl
  | statement => rfl
  | remark => contradiction

/-- The rules spell the next lexeme in front of the text after it. -/
theorem spelling_lexeme {place : Place} (noRemark : place.mode ≠ .remark) :
    Spelling (place.mode = .opening) place.lexeme.reading place.lexeme.text place.next.rest := by
  have ahead_eq : place.lexeme.text ++ place.next.rest = place.ahead :=
    List.take_append_drop _ _
  rw [spelling_iff, length_lexeme_text, ahead_eq, ← recognition_eq noRemark]
  rfl

/-- What the rules spell after the blanks is the next lexeme. -/
theorem lexeme_of_spelling {place : Place} {reading : Reading} {blanks taken after : Bytes}
    (noRemark : place.mode ≠ .remark) (left : place.rest = blanks ++ (taken ++ after))
    (skipped : IsLongestPrefix (ofClass isBlank)∗ (blanks ++ (taken ++ after)) blanks)
    (spelled : Spelling (place.mode = .opening) reading taken after) :
    place.lexeme = ⟨reading, place.offset + blanks.length, taken⟩ ∧ place.next.rest = after := by
  have blanks_eq : blanks = place.rest.take place.blanks := by
    rw [← left] at skipped
    exact skipped.unique (isLongestPrefix_blanks noRemark)
  have ahead_eq : place.ahead = taken ++ after := by
    have split := left
    rw [← List.take_append_drop place.blanks place.rest, ← blanks_eq] at split
    exact List.append_cancel_left split
  have recognised : place.recognition = ⟨reading, taken.length⟩ := by
    rw [recognition_eq noRemark, ahead_eq]
    exact spelling_iff.mp spelled
  have blanks_length : place.blanks = blanks.length := by
    rw [blanks_eq, List.length_take_of_le place.blanks_le]
  constructor
  · rw [lexeme, recognised, ahead_eq, List.take_left, blanks_length]
  · rw [next, recognised, ahead_eq, List.drop_left]

/-- Where only blanks are left the end of the text is read behind them. -/
theorem lexeme_of_blank {place : Place} (noRemark : place.mode ≠ .remark)
    (blank : ∀ byte ∈ place.rest, isBlank byte = true) :
    place.lexeme = ⟨.endOfText, place.offset + place.rest.length, []⟩ ∧ place.next.rest = [] := by
  have left : place.rest = place.rest ++ ([] ++ []) := by simp
  have skipped : IsLongestPrefix (ofClass isBlank)∗ (place.rest ++ ([] ++ [])) place.rest :=
    IsLongestPrefix.kstar_iff.mpr ⟨blank, nofun⟩
  exact lexeme_of_spelling noRemark left skipped .nothing

end Place

/-! ## Answers -/

/-- What a call on a text gives after the call `previous?`, or as the first. -/
inductive Answer (text : Bytes) (previous? : Option Lexeme) : Lexeme → Prop where
  | remark {keyword : Lexeme} {body after : Bytes} (isPrevious : previous? = some keyword)
      (isRem : keyword.reading = .terminal .kwRem)
      (left : text.drop keyword.stop = body ++ after)
      (longest : IsLongestPrefix (ofClass (· ≠ newline))∗ (body ++ after) body) :
      Answer text previous? ⟨.terminal .remarkString, keyword.stop, body⟩
  | statement {reading : Reading} {blanks taken after : Bytes}
      (noRem : ∀ previous ∈ previous?, previous.reading ≠ .terminal .kwRem)
      (left : text.drop (endOf previous?) = blanks ++ (taken ++ after))
      (skipped : IsLongestPrefix (ofClass isBlank)∗ (blanks ++ (taken ++ after)) blanks)
      (spelled : Spelling previous?.isNone reading taken after) :
      Answer text previous? ⟨reading, endOf previous? + blanks.length, taken⟩

namespace Place.Follows

variable {text : Bytes} {previous? : Option Lexeme} {place : Place}

theorem mode_eq_remark_iff (follows : Follows text previous? place) :
    place.mode = .remark ↔
      ∃ keyword, previous? = some keyword ∧ keyword.reading = .terminal .kwRem := by
  rw [follows.mode_eq]
  cases previous? with
  | none => simp
  | some previous => simp [Reading.nextMode_eq_remark_iff]

/-- Only the first call is read as an opening. -/
theorem isOpening_eq (follows : Follows text previous? place) :
    decide (place.mode = .opening) = previous?.isNone := by
  rw [follows.mode_eq]
  cases previous? with
  | none => rfl
  | some previous => exact decide_eq_false previous.reading.nextMode_ne_opening

/-- What a call gives at a place is an answer. -/
theorem answer (follows : Follows text previous? place) :
    Answer text previous? place.lexeme := by
  by_cases isRemark : place.mode = .remark
  · obtain ⟨keyword, rfl, isRem⟩ := follows.mode_eq_remark_iff.mp isRemark
    have left : text.drop keyword.stop =
        place.rest.takeWhile (· ≠ newline) ++ place.rest.dropWhile (· ≠ newline) := by
      rw [List.takeWhile_append_dropWhile, follows.rest_eq, follows.offset_eq, endOf_some]
    rw [lexeme_of_remark isRemark, follows.offset_eq]
    exact Answer.remark rfl isRem left (IsLongestPrefix.takeWhile_append_dropWhile _ _)
  · have blanks_length := List.length_take_of_le place.blanks_le
    have start_eq : place.lexeme.start =
        endOf previous? + (place.rest.take place.blanks).length := by
      rw [blanks_length, ← follows.offset_eq]
      rfl
    have spelled := spelling_lexeme isRemark
    rw [follows.isOpening_eq] at spelled
    have noRem : ∀ previous ∈ previous?, previous.reading ≠ .terminal .kwRem := by
      intro previous isPrevious isRem
      exact isRemark (follows.mode_eq_remark_iff.mpr ⟨previous, isPrevious, isRem⟩)
    have left : text.drop (endOf previous?) =
        place.rest.take place.blanks ++ (place.lexeme.text ++ place.next.rest) := by
      rw [← follows.offset_eq, ← follows.rest_eq, ← place.rest_eq]
    have skipped := isLongestPrefix_blanks_append isRemark
    have isAnswer := Answer.statement noRem left skipped spelled
    rwa [← start_eq] at isAnswer

/-- An answer is what a call gives at the place. -/
theorem eq_lexeme_of_answer {lexeme : Lexeme} (follows : Follows text previous? place)
    (isAnswer : Answer text previous? lexeme) : lexeme = place.lexeme := by
  cases isAnswer with
  | @remark keyword body after isPrevious isRem left longest =>
      subst isPrevious
      have isRemark := follows.mode_eq_remark_iff.mpr ⟨keyword, rfl, isRem⟩
      rw [← endOf_some keyword, ← follows.offset_eq, ← follows.rest_eq] at left
      rw [← endOf_some keyword, ← follows.offset_eq]
      exact (lexeme_of_body isRemark left longest).1.symm
  | @statement reading blanks taken after noRem left skipped spelled =>
      have noRemark : place.mode ≠ .remark := by
        intro isRemark
        obtain ⟨keyword, isPrevious, isRem⟩ := follows.mode_eq_remark_iff.mp isRemark
        exact noRem keyword isPrevious isRem
      rw [← follows.offset_eq, ← follows.rest_eq] at left
      rw [← follows.isOpening_eq] at spelled
      rw [← follows.offset_eq]
      exact (lexeme_of_spelling noRemark left skipped spelled).1.symm

end Place.Follows

/-- A run of calls on a text gives the answers of the reference lexer and no
others: each call is answered from the text and the call before it. -/
theorem getElem?_calls_eq_some_iff_answer (text : Bytes) (count index : Nat) (lexeme : Lexeme) :
    ((Place.opening text).calls count)[index]? = some lexeme ↔
      index < count ∧ Answer text ((Place.opening text).calls index).getLast? lexeme := by
  have follows := Place.follows_after text index
  rw [Place.getElem?_calls]
  apply and_congr_right
  intro _
  constructor
  · rintro rfl
    exact follows.answer
  · exact follows.eq_lexeme_of_answer

end MinBasic.Lexical
