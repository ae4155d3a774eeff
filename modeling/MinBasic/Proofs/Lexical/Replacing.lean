import MinBasic.Proofs.Lexical.Following
import MinBasic.Proofs.Lexical.Lossless

/-!
# Places with another text behind their lexeme

Outside a remark the next lexeme of a place starts with a byte that is not blank
and stops where its rule says.  So it is read again at every place that has the
same lexeme behind any blanks and, behind the lexeme, a text that can stand there
instead.
-/

namespace MinBasic.Lexical.Place

open Computability Text.Ascii

/-- A token is no end of the text. -/
theorem more_of_token {place : Place} {token : Token}
    (isToken : place.lexeme.reading = .token token) : place.lexeme.reading ≠ .endOfText := by
  rw [isToken]
  nofun

/-- A token is no fault. -/
theorem noFault_of_token {place : Place} {token : Token}
    (isToken : place.lexeme.reading = .token token) (fault : Fault) :
    place.lexeme.reading ≠ .fault fault := by
  rw [isToken]
  nofun

/-- A fault is no end of the text. -/
theorem more_of_fault {place : Place} {fault : Fault}
    (isFault : place.lexeme.reading = .fault fault) : place.lexeme.reading ≠ .endOfText := by
  rw [isFault]
  nofun

theorem lexemes_ne_nil {place : Place} (more : place.lexeme.reading ≠ .endOfText) :
    place.lexemes ≠ [] := by
  rw [lexemes_of_more more]
  exact List.cons_ne_nil _ _

/-- Where only blanks are left there is no lexeme. -/
theorem lexemes_of_blank {place : Place} (noRemark : place.mode ≠ .remark)
    (blank : ∀ byte ∈ place.rest, isBlank byte = true) : place.lexemes = [] := by
  apply lexemes_of_endOfText
  rw [(lexeme_of_blank noRemark blank).1]

/-- A remark is all that is read where only blanks are left behind it. -/
theorem lexemes_of_body {place : Place} {body after : Bytes} (isRemark : place.mode = .remark)
    (left : place.rest = body ++ after)
    (longest : IsLongestPrefix (ofClass (· ≠ newline))∗ (body ++ after) body)
    (blank : ∀ byte ∈ after, isBlank byte = true) :
    place.lexemes = [⟨.terminal .remarkString, place.offset, body⟩] := by
  obtain ⟨isBody, rest_eq⟩ := lexeme_of_body isRemark left longest
  have nothing : place.next.lexemes = [] := by
    apply lexemes_of_blank
    · rw [next_eq, isBody]
      nofun
    · rwa [rest_eq]
  have isToken : place.lexeme.reading = .terminal .remarkString := by rw [isBody]
  rw [lexemes_of_more (more_of_token isToken), nothing, isBody]

/-- Outside a remark a lexeme starts with a byte that is not blank. -/
theorem exists_lexeme_text_eq_cons {place : Place} (noRemark : place.mode ≠ .remark)
    (more : place.lexeme.reading ≠ .endOfText) :
    ∃ byte rest, place.lexeme.text = byte :: rest ∧ isBlank byte = false := by
  have pos := recognition_length_pos noRemark more
  rw [← length_lexeme_text] at pos
  obtain ⟨-, stops⟩ := IsLongestPrefix.kstar_iff.mp (isLongestPrefix_blanks_append noRemark)
  cases text_eq : place.lexeme.text with
  | nil => simp [text_eq] at pos
  | cons byte rest => exact ⟨byte, rest, rfl, stops byte (by rw [text_eq]; rfl)⟩

/-- Blanks stop at a byte that is not blank. -/
theorem isLongestPrefix_of_not_isBlank {gap rest : Bytes} {byte : UInt8}
    (blank : ∀ byte ∈ gap, isBlank byte = true) (notBlank : isBlank byte = false) :
    IsLongestPrefix (ofClass isBlank)∗ (gap ++ byte :: rest) gap := by
  apply IsLongestPrefix.kstar_iff.mpr
  refine ⟨blank, ?_⟩
  rintro _ ⟨rfl⟩
  exact notBlank

/-- Blanks in front of a lexeme stop there, whatever follows the lexeme. -/
theorem isLongestPrefix_gap {place : Place} (noRemark : place.mode ≠ .remark)
    (more : place.lexeme.reading ≠ .endOfText) {gap : Bytes}
    (blank : ∀ byte ∈ gap, isBlank byte = true) (after : Bytes) :
    IsLongestPrefix (ofClass isBlank)∗ (gap ++ (place.lexeme.text ++ after)) gap := by
  obtain ⟨byte, rest, text_eq, notBlank⟩ := exists_lexeme_text_eq_cons noRemark more
  rw [text_eq]
  exact isLongestPrefix_of_not_isBlank blank notBlank

/-- The next lexeme of a place is read at a place where it stands behind other
blanks and before a text that can replace the one behind it. -/
theorem lexeme_of_replaced {place printed : Place} {gap after' : Bytes}
    (noRemark : place.mode ≠ .remark) (more : place.lexeme.reading ≠ .endOfText)
    (canReplace : CanReplace place.next.rest after') (sameMode : printed.mode = place.mode)
    (left : printed.rest = gap ++ (place.lexeme.text ++ after'))
    (blank : ∀ byte ∈ gap, isBlank byte = true) :
    printed.lexeme = { place.lexeme with start := printed.offset + gap.length } ∧
      printed.next.rest = after' := by
  have spelled := (spelling_lexeme noRemark).replace canReplace
  have skipped := isLongestPrefix_gap noRemark more blank after'
  rw [← sameMode] at noRemark spelled
  exact lexeme_of_spelling noRemark left skipped spelled

/-- The same place of a text that goes on otherwise. -/
def withRest (place : Place) (rest : Bytes) : Place :=
  { place with rest }

/-- Behind the blanks of a place any lexeme can be read in place of the next one. -/
theorem lexeme_withRest_of_spelling {place : Place} {reading : Reading} {taken after : Bytes}
    (noRemark : place.mode ≠ .remark)
    (skipped : IsLongestPrefix (ofClass isBlank)∗
      (place.rest.take place.blanks ++ (taken ++ after)) (place.rest.take place.blanks))
    (spelled : Spelling (place.mode = .opening) reading taken after) :
    let printed := place.withRest (place.rest.take place.blanks ++ (taken ++ after))
    printed.lexeme = ⟨reading, place.lexeme.start, taken⟩ ∧
      printed.next = ⟨place.lexeme.start + taken.length, after, reading.nextMode⟩ := by
  intro printed
  have noRemark' : printed.mode ≠ .remark := noRemark
  obtain ⟨isRead, rest_eq⟩ := lexeme_of_spelling noRemark' rfl skipped spelled
  rw [List.length_take_of_le place.blanks_le] at isRead
  refine ⟨isRead, ?_⟩
  rw [next_eq, isRead, rest_eq]
  rfl

/-- The next lexeme is read again where only the text behind it is replaced. -/
theorem lexeme_withRest {place : Place} {after' : Bytes} (noRemark : place.mode ≠ .remark)
    (more : place.lexeme.reading ≠ .endOfText) (canReplace : CanReplace place.next.rest after') :
    let printed := place.withRest (place.rest.take place.blanks ++ (place.lexeme.text ++ after'))
    printed.lexeme = place.lexeme ∧ printed.next = place.next.withRest after' :=
  lexeme_withRest_of_spelling noRemark
    (isLongestPrefix_gap noRemark more (fun _ => isBlank_of_mem_take_blanks) after')
    ((spelling_lexeme noRemark).replace canReplace)

end MinBasic.Lexical.Place
