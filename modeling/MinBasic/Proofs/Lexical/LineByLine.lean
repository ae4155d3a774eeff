import MinBasic.Proofs.Lexical.Shape
import MinBasic.Proofs.Text.Complete

/-!
# Scanning line by line

A text that is cut behind a newline can be scanned in two parts.  No lexeme but
a string that is not closed has a newline in it, so the first part is scanned as
if nothing followed, and the second part as if nothing stood before, except for
the offsets and for the line number that only opens a text.  A string that is not
closed in the first part is not closed in the whole either and takes the second
part with it.

Two scans are compared: at a place of the first part, and at the same place
before more text (`Place.extend`).  They go on together up to the end of the
first part, and there the second scan has only blanks to skip.
-/

namespace MinBasic.Lexical

open Computability Text Text.Ascii

/-! ## Results of a scan -/

/-- What the calls on a text give, up to the first end of the text. -/
def scan (text : Bytes) : List Lexeme :=
  (Place.opening text).calls ((lexemes text).length + 1)

theorem scan_eq (text : Bytes) : scan text = lexemes text ++ [⟨.endOfText, text.length, []⟩] :=
  calls_succ_length_lexemes text

/-- A lexeme behind a number of bytes. -/
def Lexeme.shift (bytes : Nat) (lexeme : Lexeme) : Lexeme :=
  { lexeme with start := bytes + lexeme.start }

/-- A reading behind others: what would be a line number is a number. -/
def Reading.continued (reading : Reading) : Reading :=
  if reading = .terminal .lineNumber then .terminal .numConstant else reading

/-- A lexeme behind others. -/
def Lexeme.continued (lexeme : Lexeme) : Lexeme :=
  { lexeme with reading := lexeme.reading.continued }

theorem Reading.continued_of_ne {reading : Reading} (other : reading ≠ .terminal .lineNumber) :
    reading.continued = reading :=
  if_neg other

theorem Reading.continued_eq_endOfText_iff {reading : Reading} :
    reading.continued = .endOfText ↔ reading = .endOfText := by
  rw [continued]
  split <;> simp_all

theorem Reading.nextMode_continued (reading : Reading) :
    reading.continued.nextMode = reading.nextMode := by
  rw [continued]
  split
  · rename_i isLineNumber
    rw [isLineNumber]
    rfl
  · rfl

/-! ## Rules and newlines -/

namespace Spelling

variable {reading : Reading} {taken after : Bytes}

/-- A lexeme that does not start with a blank has no newline in it, unless it is
a string that is not closed. -/
theorem newline_not_mem {isFirst : Bool} (spelling : Spelling isFirst reading taken after)
    (notBlank : ∀ byte ∈ taken.head?, isBlank byte = false)
    (closed : reading ≠ .fault .unterminatedString) : newline ∉ taken := by
  have outside {accepts : UInt8 → Bool} {word : Bytes} (rejected : accepts newline = false)
      (accepted : ∀ byte ∈ word, accepts byte = true) : newline ∉ word := by
    intro member
    rw [accepted newline member] at rejected
    contradiction
  have noSingle {byte : UInt8} (notBlank : isBlank byte = false) : newline ≠ byte := by
    rintro rfl
    contradiction
  cases spelling with
  | nothing => exact List.not_mem_nil
  | symbol isSymbol => exact List.mem_singleton.not.mpr (noSingle (notBlank _ rfl))
  | operator isOperator =>
      have unbroken : ∀ item ∈ operators, newline ∉ item.1 := by decide +kernel
      exact unbroken _ isOperator
  | comparison isComparison alone =>
      exact List.mem_singleton.not.mpr (noSingle (notBlank _ rfl))
  | closedString inside =>
      have noQuote : newline ≠ quote := by decide
      simp only [List.mem_cons, List.mem_append, List.not_mem_nil, noQuote, inside.2, or_self,
        not_false_eq_true]
  | openString unclosed => exact absurd rfl closed
  | numeral opens longest =>
      have rejected : (!isBlank newline) = false := rfl
      exact outside rejected
        (mem_kstar_ofClass_iff.mp (Grammar.numeral_le_unbroken longest.mem))
  | keyword longest isKeyword spells =>
      exact outside rfl (mem_kstar_ofClass_iff.mp longest.mem)
  | identifier longest noDigit => exact outside rfl (mem_kstar_ofClass_iff.mp longest.mem)
  | @numberedIdentifier letter digit _ isLetter isDigit =>
      have noLetter : newline ∉ [letter] := outside rfl (by simpa using isLetter)
      have noDigit : newline ∉ [digit] := outside rfl (by simpa using isDigit)
      simpa using And.intro (List.mem_singleton.not.mp noLetter) (List.mem_singleton.not.mp noDigit)
  | unrecognized longest isLong unknown =>
      exact outside rfl (mem_kstar_ofClass_iff.mp longest.mem)
  | @unexpected byte trail _ noSymbol noComparison noQuote noNumeral noLetter longest =>
      have noTrail : newline ∉ trail := by
        split at longest
        · exact outside rfl (mem_kstar_ofClass_iff.mp longest.mem)
        · rw [longest]
          exact List.not_mem_nil
      exact List.mem_cons.not.mpr (not_or.mpr ⟨noSingle (notBlank _ rfl), noTrail⟩)

/-- A string that is not closed takes any text behind it, too, if a newline is
in it. -/
theorem append_of_unclosed {isFirst : Bool}
    (spelling : Spelling isFirst (.fault .unterminatedString) taken after)
    (broken : newline ∈ taken) (more : Bytes) :
    Spelling isFirst (.fault .unterminatedString) (taken ++ more) [] := by
  cases spelling with
  | @openString rest unclosed =>
      have brokenRest : newline ∈ rest := (List.mem_cons.mp broken).resolve_left (by decide)
      apply Spelling.openString
      intro body after split
      rcases List.append_eq_append_iff.mp split with ⟨skipped, rfl, -⟩ | ⟨skipped, rest_eq, more_eq⟩
      · exact List.mem_append_left _ brokenRest
      · cases skipped with
        | nil => rwa [rest_eq, List.append_nil] at brokenRest
        | cons byte skipped =>
            obtain ⟨rfl, -⟩ := List.cons.inj more_eq
            exact unclosed body skipped rest_eq

/-- What opens a text is spelled behind others by the same rule. -/
theorem continued (spelling : Spelling true reading taken after) :
    Spelling false reading.continued taken after := by
  cases spelling with
  | nothing => exact .nothing
  | symbol isSymbol => exact .symbol isSymbol
  | @operator _ _ symbol isOperator =>
      have apart : ∀ item ∈ operators, item.2 ≠ .lineNumber := by decide +kernel
      rw [Reading.continued_of_ne (by simpa using apart _ isOperator)]
      exact .operator isOperator
  | comparison isComparison alone => exact .comparison isComparison alone
  | closedString inside => exact .closedString inside
  | openString unclosed => exact .openString unclosed
  | numeral opens longest =>
      have isNumber :
          (Reading.terminal
            (if true && taken.all isDigit then .lineNumber else .numConstant)).continued =
            .terminal (if false && taken.all isDigit then .lineNumber else .numConstant) := by
        cases taken.all isDigit <;> rfl
      rw [isNumber]
      exact .numeral opens longest
  | @keyword _ _ keyword longest isKeyword spells =>
      have apart : ∀ keyword ∈ Terminal.keywords, keyword ≠ .lineNumber := by decide +kernel
      rw [Reading.continued_of_ne (by simpa using apart _ isKeyword)]
      exact .keyword longest isKeyword spells
  | identifier longest noDigit => exact .identifier longest noDigit
  | numberedIdentifier isLetter isDigit => exact .numberedIdentifier isLetter isDigit
  | unrecognized longest isLong unknown => exact .unrecognized longest isLong unknown
  | unexpected noSymbol noComparison noQuote noNumeral noLetter longest =>
      exact .unexpected noSymbol noComparison noQuote noNumeral noLetter longest

end Spelling

namespace Place

/-! ## Before more text -/

/-- The same place of a text that goes on. -/
def extend (place : Place) (more : Bytes) : Place :=
  { place with rest := place.rest ++ more }

theorem newline_not_mem_text {place : Place}
    (closed : place.lexeme.reading ≠ .fault .unterminatedString) :
    newline ∉ place.lexeme.text := by
  by_cases isRemark : place.mode = .remark
  · rw [lexeme_of_remark isRemark]
    intro member
    simpa using List.mem_takeWhile_imp member
  · obtain ⟨-, stops⟩ := IsLongestPrefix.kstar_iff.mp (isLongestPrefix_blanks_append isRemark)
    apply (spelling_lexeme isRemark).newline_not_mem _ closed
    intro byte isHead
    apply stops byte
    rw [List.head?_append, Option.mem_def.mp isHead]
    rfl

/-- Where a lexeme is followed by nothing, it has the last byte of the text. -/
theorem getLast?_text_of_next_eq_nil {place : Place} (ended : isEnded place.rest = true)
    (more : place.lexeme.reading ≠ .endOfText) (nothing : place.next.rest = []) :
    place.lexeme.text.getLast? = some newline := by
  have split := place.rest_eq
  rw [nothing, List.append_nil] at split
  have nonempty : place.lexeme.text ≠ [] := by
    intro empty
    by_cases isRemark : place.mode = .remark
    · have noBlanks : place.blanks = 0 := by rw [blanks, isRemark]
      rw [noBlanks, empty] at split
      rw [split] at ended
      contradiction
    · obtain ⟨byte, rest, text_eq, -⟩ := exists_lexeme_text_eq_cons isRemark more
      rw [text_eq] at empty
      contradiction
  rwa [isEnded_iff, split, List.getLast?_append_of_ne_nil _ nonempty] at ended

/-- A text that ends in a newline still does behind a lexeme. -/
theorem isEnded_next {place : Place} (ended : isEnded place.rest = true)
    (more : place.lexeme.reading ≠ .endOfText)
    (closed : place.lexeme.reading ≠ .fault .unterminatedString) :
    isEnded place.next.rest = true := by
  by_cases nothing : place.next.rest = []
  · have last := getLast?_text_of_next_eq_nil ended more nothing
    exact absurd (List.mem_of_getLast? last) (newline_not_mem_text closed)
  · rwa [isEnded_iff, place.rest_eq, ← List.append_assoc,
      List.getLast?_append_of_ne_nil _ nothing, ← isEnded_iff] at ended

/-- A lexeme of a text that ends in a newline is read as if nothing followed. -/
theorem lexeme_extend {place : Place} (ended : isEnded place.rest = true)
    (more : place.lexeme.reading ≠ .endOfText)
    (closed : place.lexeme.reading ≠ .fault .unterminatedString) (text : Bytes) :
    (place.extend text).lexeme = place.lexeme ∧
      (place.extend text).next = place.next.extend text := by
  have broken := newline_mem_of_isEnded (isEnded_next ended more closed)
  have left : (place.extend text).rest =
      place.rest.take place.blanks ++ (place.lexeme.text ++ (place.next.rest ++ text)) := by
    rw [← List.append_assoc, ← List.append_assoc, List.append_assoc _ place.lexeme.text,
      ← place.rest_eq]
    rfl
  have same : (place.extend text).lexeme = place.lexeme ∧
      (place.extend text).next.rest = place.next.rest ++ text := by
    by_cases isRemark : place.mode = .remark
    · have noBlanks : place.blanks = 0 := by rw [blanks, isRemark]
      have rejected : decide (newline ≠ newline) = false := by simp
      have longest : IsLongestPrefix (ofClass (· ≠ newline))∗
          (place.lexeme.text ++ (place.next.rest ++ text)) place.lexeme.text :=
        (isLongestPrefix_remark isRemark).append_of_mem le_rfl broken rejected
      have stillRemark : (place.extend text).mode = .remark := isRemark
      rw [noBlanks, List.take_zero, List.nil_append] at left
      obtain ⟨isBody, rest_eq⟩ := lexeme_of_body stillRemark left longest
      refine ⟨?_, rest_eq⟩
      rw [isBody, lexeme_of_remark isRemark]
      rfl
    · have sameMode : (place.extend text).mode = place.mode := rfl
      have replaced := lexeme_of_replaced isRemark more (.longer broken) sameMode left
        fun _ => isBlank_of_mem_take_blanks
      rw [List.length_take_of_le place.blanks_le] at replaced
      exact replaced
  refine ⟨same.1, ?_⟩
  rw [next_eq, same.1, same.2]
  rfl

/-- A text that has a string that is not closed in none of its lexemes is scanned
up to its end as if nothing followed. -/
theorem lexemes_extend {place : Place} (ended : isEnded place.rest = true)
    (closed : ∀ lexeme ∈ place.lexemes, lexeme.reading ≠ .fault .unterminatedString)
    (text : Bytes) :
    (place.extend text).lexemes =
      place.lexemes ++ ((place.after place.lexemes.length).extend text).lexemes := by
  induction place using lexemes.induct with
  | case1 place isEnd =>
      rw [lexemes_of_endOfText isEnd]
      rfl
  | case2 place more ih =>
      rw [lexemes_of_more more] at closed ⊢
      obtain ⟨closedHere, closedLater⟩ := List.forall_mem_cons.mp closed
      obtain ⟨sameLexeme, next_eq⟩ := lexeme_extend ended more closedHere text
      rw [List.cons_append, lexemes_eq_cons_iff, sameLexeme, next_eq,
        ih (isEnded_next ended more closedHere) closedLater]
      exact ⟨more, rfl, rfl⟩

/-! ## Behind other text -/

/-- The same place behind a number of bytes. -/
def shift (bytes : Nat) (place : Place) : Place :=
  { place with offset := bytes + place.offset }

theorem lexeme_shift (bytes : Nat) (place : Place) :
    (place.shift bytes).lexeme = place.lexeme.shift bytes := by
  simp only [lexeme, Lexeme.shift, Lexeme.mk.injEq]
  exact ⟨rfl, Nat.add_assoc .., rfl⟩

theorem next_shift (bytes : Nat) (place : Place) :
    (place.shift bytes).next = place.next.shift bytes := by
  have stop_eq : (place.lexeme.shift bytes).stop = bytes + place.lexeme.stop := Nat.add_assoc ..
  rw [next_eq, lexeme_shift, stop_eq]
  rfl

theorem lexemes_shift (bytes : Nat) (place : Place) :
    (place.shift bytes).lexemes = place.lexemes.map (Lexeme.shift bytes) := by
  induction place using lexemes.induct with
  | case1 place isEnd =>
      have isEnd' : (place.shift bytes).lexeme.reading = .endOfText := isEnd
      rw [lexemes_of_endOfText isEnd, lexemes_of_endOfText isEnd', List.map_nil]
  | case2 place more ih =>
      rw [lexemes_of_more more, List.map_cons, lexemes_eq_cons_iff, lexeme_shift, next_shift, ih]
      exact ⟨more, rfl, rfl⟩

/-- Places that read the same lexeme and are the same after it read the same
lexemes. -/
theorem lexemes_congr {place place' : Place} (sameLexeme : place.lexeme = place'.lexeme)
    (sameNext : place.next = place'.next) : place.lexemes = place'.lexemes := by
  by_cases isEnd : place'.lexeme.reading = .endOfText
  · rw [lexemes_of_endOfText isEnd, lexemes_of_endOfText (sameLexeme ▸ isEnd)]
  · rw [lexemes_of_more isEnd, lexemes_eq_cons_iff, sameLexeme, sameNext]
    exact ⟨isEnd, rfl, rfl⟩

/-- Blanks in front of a place belong to no lexeme. -/
theorem lexemes_skip {mode : Mode} (noRemark : mode ≠ .remark) {gap : Bytes}
    (blank : ∀ byte ∈ gap, isBlank byte = true) (offset : Nat) (text : Bytes) :
    (Place.mk offset (gap ++ text) mode).lexemes =
      (Place.mk (offset + gap.length) text mode).lexemes := by
  let before : Place := ⟨offset, gap ++ text, mode⟩
  let behind : Place := ⟨offset + gap.length, text, mode⟩
  have blanks_eq : before.blanks = gap.length + behind.blanks := by
    cases mode with
    | remark => contradiction
    | opening | statement =>
        simp only [blanks, before, behind, List.takeWhile_append_of_pos blank, List.length_append]
  have ahead_eq : before.ahead = behind.ahead := by
    rw [ahead, blanks_eq]
    exact List.drop_length_add_append ..
  have recognition_eq : before.recognition = behind.recognition := by
    rw [recognition, recognition, ahead_eq]
  have sameLexeme : before.lexeme = behind.lexeme := by
    rw [lexeme, lexeme, recognition_eq, ahead_eq, blanks_eq, ← Nat.add_assoc]
  apply lexemes_congr sameLexeme
  rw [next, next, sameLexeme, recognition_eq, ahead_eq]

/-- A text behind other lexemes is scanned as at its start, but a line number is
a number there. -/
theorem lexemes_statement (text : Bytes) :
    (Place.mk 0 text .statement).lexemes =
      (opening text).lexemes.modifyHead Lexeme.continued := by
  let first := opening text
  have noRemark : first.mode ≠ .remark := nofun
  have spelled : Spelling true first.lexeme.reading first.lexeme.text first.next.rest :=
    spelling_lexeme noRemark
  have noRemark' : (Place.mk 0 text .statement).mode ≠ .remark := nofun
  obtain ⟨isLexeme, sameRest⟩ := lexeme_of_spelling noRemark' first.rest_eq
    (isLongestPrefix_blanks_append noRemark) spelled.continued
  rw [List.length_take_of_le first.blanks_le] at isLexeme
  have sameLexeme : (Place.mk 0 text .statement).lexeme = first.lexeme.continued := isLexeme
  have sameNext : (Place.mk 0 text .statement).next = first.next := by
    rw [next_eq, sameLexeme, sameRest, first.next_eq]
    exact congrArg _ (Reading.nextMode_continued _)
  by_cases isEnd : first.lexeme.reading = .endOfText
  · have isEnd' := Reading.continued_eq_endOfText_iff.mpr isEnd
    rw [lexemes_of_endOfText isEnd, lexemes_of_endOfText (sameLexeme ▸ isEnd')]
    rfl
  · rw [lexemes_of_more isEnd, List.modifyHead_cons, lexemes_eq_cons_iff, sameLexeme, sameNext]
    exact ⟨mt Reading.continued_eq_endOfText_iff.mp isEnd, rfl, rfl⟩

/-- Where a text has nothing but blanks left, the text that follows is scanned as
by itself. -/
theorem IsDone.lexemes_extend {text : Bytes} {place : Place} (isDone : IsDone text place)
    (more : Bytes) :
    (place.extend more).lexemes =
      (Place.mk 0 more place.mode).lexemes.map (Lexeme.shift text.length) := by
  have skipped := lexemes_skip isDone.noRemark isDone.blank place.offset more
  rw [isDone.length_rest] at skipped
  exact skipped.trans (lexemes_shift text.length ⟨0, more, place.mode⟩)

/-! ## A string that is not closed -/

theorem stop_add_length_next (place : Place) :
    place.lexeme.stop + place.next.rest.length = place.offset + place.rest.length := by
  have split := congrArg List.length place.rest_eq
  rw [List.length_append, List.length_append, List.length_take_of_le place.blanks_le] at split
  change place.offset + place.blanks + place.lexeme.text.length + place.next.rest.length = _
  omega

/-- A string that is not closed is the last lexeme. -/
theorem lexemes_next_of_unclosed {place : Place}
    (isFault : place.lexeme.reading = .fault .unterminatedString) : place.next.lexemes = [] := by
  have noRemark := noRemark_of_fault isFault
  apply lexemes_of_blank
  · rw [next_eq, isFault]
    nofun
  · rw [(spelling_lexeme noRemark).eq_nil_of_last (Or.inr isFault)]
    exact List.forall_mem_nil _

/-- A string that is not closed takes the text that follows. -/
theorem lexeme_extend_of_unclosed {place : Place} (ended : isEnded place.rest = true)
    (isFault : place.lexeme.reading = .fault .unterminatedString) (text : Bytes) :
    place.next.rest = [] ∧
      (place.extend text).lexeme = { place.lexeme with text := place.lexeme.text ++ text } := by
  have noRemark := noRemark_of_fault isFault
  have more : place.lexeme.reading ≠ .endOfText := by
    rw [isFault]
    nofun
  have spelled := spelling_lexeme noRemark
  have nothing := spelled.eq_nil_of_last (Or.inr isFault)
  have broken := List.mem_of_getLast? (getLast?_text_of_next_eq_nil ended more nothing)
  rw [isFault] at spelled
  have left : (place.extend text).rest =
      place.rest.take place.blanks ++ ((place.lexeme.text ++ text) ++ []) := by
    rw [List.append_nil, ← List.append_assoc, ← List.append_nil place.lexeme.text, ← nothing,
      ← place.rest_eq]
    rfl
  have blank : ∀ byte ∈ place.rest.take place.blanks, isBlank byte = true :=
    fun _ => isBlank_of_mem_take_blanks
  have skipped := isLongestPrefix_gap noRemark more blank (text ++ [])
  rw [← List.append_assoc place.lexeme.text] at skipped
  have noRemark' : (place.extend text).mode ≠ .remark := noRemark
  obtain ⟨isLexeme, -⟩ := lexeme_of_spelling noRemark' left skipped
    (spelled.append_of_unclosed broken text)
  rw [List.length_take_of_le place.blanks_le, ← isFault] at isLexeme
  exact ⟨nothing, isLexeme⟩

/-- A string that is not closed takes the text that follows. -/
theorem exists_lexemes_extend {place : Place} (ended : isEnded place.rest = true)
    (unclosed : ∃ lexeme ∈ place.lexemes, lexeme.reading = .fault .unterminatedString)
    (text : Bytes) :
    ∃ before fault, fault.reading = .fault .unterminatedString ∧
      fault.stop = place.offset + place.rest.length ∧ place.lexemes = before ++ [fault] ∧
      (place.extend text).lexemes = before ++ [{ fault with text := fault.text ++ text }] := by
  induction place using lexemes.induct with
  | case1 place isEnd =>
      rw [lexemes_of_endOfText isEnd] at unclosed
      simp at unclosed
  | case2 place more ih =>
      rw [lexemes_of_more more] at unclosed ⊢
      by_cases here : place.lexeme.reading = .fault .unterminatedString
      · obtain ⟨nothing, extended⟩ := lexeme_extend_of_unclosed ended here text
        have here' : (place.extend text).lexeme.reading = .fault .unterminatedString := by
          rw [extended, here]
        refine ⟨[], place.lexeme, here, ?_, ?_, ?_⟩
        · rw [← stop_add_length_next, nothing, List.length_nil, Nat.add_zero]
        · rw [lexemes_next_of_unclosed here, List.nil_append]
        · rw [List.nil_append, lexemes_eq_cons_iff, lexemes_next_of_unclosed here', extended]
          exact ⟨more, rfl, rfl⟩
      · obtain ⟨sameLexeme, next_eq⟩ := lexeme_extend ended more here text
        have unclosedLater : ∃ lexeme ∈ place.next.lexemes,
            lexeme.reading = .fault .unterminatedString := by
          rcases unclosed with ⟨lexeme, member, isFault⟩
          rcases List.mem_cons.mp member with rfl | member
          · contradiction
          · exact ⟨lexeme, member, isFault⟩
        obtain ⟨before, fault, isFault, stop_eq, lexemes_eq, extended⟩ :=
          ih (isEnded_next ended more here) unclosedLater
        refine ⟨place.lexeme :: before, fault, isFault, ?_, ?_, ?_⟩
        · rw [stop_eq, next_offset, stop_add_length_next]
        · rw [lexemes_eq, List.cons_append]
        · rw [List.cons_append, lexemes_eq_cons_iff, sameLexeme, next_eq, extended]
          exact ⟨more, rfl, rfl⟩

end Place

/-! ## Two texts -/

theorem modifyHead_continued_scan (text : Bytes) :
    (scan text).modifyHead Lexeme.continued =
      (lexemes text).modifyHead Lexeme.continued ++ [⟨.endOfText, text.length, []⟩] := by
  rw [scan_eq]
  cases lexemes text with
  | nil => rfl
  | cons first later => rfl

/-- Behind the lexemes of a text only blanks are left, and they are read as an
opening if there are no lexemes. -/
theorem exists_after_lexemes (text : Bytes) :
    ∃ place, Place.IsDone text place ∧
      place = (Place.opening text).after (lexemes text).length ∧
      place.mode = if lexemes text = [] then .opening else .statement := by
  obtain ⟨calls_eq, isEnd⟩ := (Place.opening text).calls_length_lexemes
  have follows := Place.follows_after text (lexemes text).length
  have isDone := follows.isDone isEnd
  refine ⟨_, isDone, rfl, ?_⟩
  have calls_eq : (Place.opening text).calls (lexemes text).length = lexemes text := calls_eq
  have isOpening := follows.isOpening_eq
  rw [calls_eq] at isOpening
  generalize (Place.opening text).after (lexemes text).length = last at isDone isOpening ⊢
  cases mode : last.mode with
  | remark => exact absurd mode isDone.noRemark
  | opening => simp_all
  | statement => simp_all

/-- Scanning several lines at once agrees with scanning line by line.  If the
first part has no string that is not closed, its lexemes are followed by the
results of the second part at their offsets in the whole, and a number that
opens the second part is a line number only if the first part has no lexemes.
Otherwise the string that is not closed takes the second part. -/
theorem scan_append {first : Bytes} (ended : isEnded first = true) (second : Bytes) :
    ((∀ lexeme ∈ scan first, lexeme.reading ≠ .fault .unterminatedString) →
      scan (first ++ second) = lexemes first ++
        (if lexemes first = [] then scan second
          else (scan second).modifyHead Lexeme.continued).map (Lexeme.shift first.length)) ∧
    ((∃ lexeme ∈ scan first, lexeme.reading = .fault .unterminatedString) →
      ∃ before fault, fault.reading = .fault .unterminatedString ∧
        scan first = before ++ [fault, ⟨.endOfText, first.length, []⟩] ∧
        let extended := { fault with text := fault.text ++ second }
        extended.stop = first.length + second.length ∧
        scan (first ++ second) =
          before ++ [extended, ⟨.endOfText, first.length + second.length, []⟩]) := by
  have ended' : isEnded (Place.opening first).rest = true := ended
  rw [scan_eq first, scan_eq (first ++ second), List.length_append]
  constructor
  · intro closed
    obtain ⟨last, isDone, last_eq, mode_eq⟩ := exists_after_lexemes first
    have joined : lexemes (first ++ second) = lexemes first ++ (last.extend second).lexemes := by
      rw [last_eq]
      exact Place.lexemes_extend ended' (List.forall_mem_append.mp closed).1 second
    rw [joined, isDone.lexemes_extend, mode_eq, List.append_assoc, List.append_cancel_left_eq]
    split
    · rw [scan_eq, List.map_append]
      rfl
    · rw [modifyHead_continued_scan, List.map_append, Place.lexemes_statement]
      rfl
  · intro unclosed
    have unclosed' : ∃ lexeme ∈ (Place.opening first).lexemes,
        lexeme.reading = .fault .unterminatedString := by
      obtain ⟨lexeme, member, isFault⟩ := unclosed
      rcases List.mem_append.mp member with member | isEnd
      · exact ⟨lexeme, member, isFault⟩
      · rw [List.mem_singleton.mp isEnd] at isFault
        cases isFault
    obtain ⟨before, fault, isFault, stop_eq, lexemes_eq, extended⟩ :=
      Place.exists_lexemes_extend ended' unclosed' second
    have lexemes_eq' : lexemes first = before ++ [fault] := lexemes_eq
    have joined : lexemes (first ++ second) = _ := extended
    rw [lexemes_eq', joined]
    refine ⟨before, fault, isFault, List.append_assoc .., ?_, List.append_assoc ..⟩
    rw [Lexeme.stop, List.length_append, ← Nat.add_assoc]
    have stop_eq' : fault.start + fault.text.length = first.length := stop_eq.trans (Nat.zero_add _)
    rw [stop_eq']

/-- A line behind one that is closed and behind one that is not. -/
theorem scan_append_of_lines :
    let closed := Utf8.encode "10 REM\n"
    let open' := Utf8.encode "A\"\n"
    let second := Utf8.encode "20 END"
    (isEnded closed = true ∧
      (∀ lexeme ∈ scan closed, lexeme.reading ≠ .fault .unterminatedString) ∧
      scan (closed ++ second) =
        lexemes closed ++ ((scan second).modifyHead .continued).map (.shift closed.length)) ∧
    isEnded open' = true ∧
      (∃ lexeme ∈ scan open', lexeme.reading = .fault .unterminatedString) ∧
      ∃ before fault, fault.reading = .fault .unterminatedString ∧
        scan open' = before ++ [fault, ⟨.endOfText, 3, []⟩] ∧
        fault.start + (fault.text ++ second).length = 3 + 6 ∧
        scan (open' ++ second) =
          before ++ [{ fault with text := fault.text ++ second }, ⟨.endOfText, 3 + 6, []⟩] := by
  intro closed open' second
  have ended : isEnded closed = true := by decide +kernel
  have allClosed : ∀ lexeme ∈ scan closed, lexeme.reading ≠ .fault .unterminatedString := by
    decide +kernel
  have some : lexemes closed ≠ [] := by decide +kernel
  have joined := (scan_append ended second).1 allClosed
  rw [if_neg some] at joined
  have ended' : isEnded open' = true := by decide +kernel
  have someOpen : ∃ lexeme ∈ scan open', lexeme.reading = .fault .unterminatedString := by
    decide +kernel
  exact ⟨⟨ended, allClosed, joined⟩, ended', someOpen, (scan_append ended' second).2 someOpen⟩

/-- Behind a blank line a number is a line number, behind others it is none. -/
example :
    (scan (Utf8.encode " \n10\n10")).map Lexeme.reading =
      [.terminal .lineNumber, .terminal .numConstant, .endOfText] := by
  decide +kernel

end MinBasic.Lexical
