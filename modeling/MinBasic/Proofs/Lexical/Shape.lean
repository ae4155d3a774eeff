import Mathlib.Data.List.Chain
import MinBasic.Proofs.Lexical.Respacing

/-!
# The shape of a run of calls

What may stand where among the results of a run of calls.  Only the first call
can give a line number.  A remark is given right after its keyword, and nowhere
else.  Behind the end of the text, and behind a string that is not closed, every
call gives the end of the text again, and on a single line so does every call
behind a remark.

Each of these is a fact about one call or about two calls in a row, because a
place keeps nothing of the calls before it but its mode.  A place with nothing
but blanks left stays such a place, and that carries the last two facts along
the run.
-/

namespace MinBasic.Lexical

open Text.Ascii

/-! ## The symbols of a statement -/

/-- The terminal symbols that a statement can spell. -/
theorem Spelling.symbol_cases {isFirst : Bool} {symbol : Terminal} {taken after : Bytes}
    (spelling : Spelling isFirst (.terminal symbol) taken after) :
    symbol ∈ operators.map Prod.snd ∨ symbol ∈ Terminal.keywords ∨
      symbol ∈ [.quotedString, .numIdentifier, .numConstant] ∨
      isFirst = true ∧ symbol = .lineNumber := by
  cases spelling with
  | operator isOperator => exact Or.inl (List.mem_map_of_mem isOperator)
  | keyword longest isKeyword spells => exact Or.inr (Or.inl isKeyword)
  | closedString inside => simp
  | identifier longest noDigit => simp
  | numberedIdentifier isLetter isDigit => simp
  | numeral opens longest =>
      cases isFirst with
      | false => simp
      | true => cases taken.all isDigit <;> simp

/-- A statement spells no remark. -/
theorem Spelling.ne_remarkString {isFirst : Bool} {reading : Reading} {taken after : Bytes}
    (spelling : Spelling isFirst reading taken after) : reading ≠ .terminal .remarkString := by
  rintro rfl
  have apart : Terminal.remarkString ∉ operators.map Prod.snd ∧
      Terminal.remarkString ∉ Terminal.keywords := by decide +kernel
  simpa [apart] using spelling.symbol_cases

/-- No text spells the marker of the unary minus. -/
theorem Spelling.ne_unaryMinus {isFirst : Bool} {reading : Reading} {taken after : Bytes}
    (spelling : Spelling isFirst reading taken after) : reading ≠ .terminal .unaryMinus := by
  rintro rfl
  have apart : Terminal.unaryMinus ∉ operators.map Prod.snd ∧
      Terminal.unaryMinus ∉ Terminal.keywords := by decide +kernel
  simpa [apart] using spelling.symbol_cases

/-- Only the first lexeme of a text can be a line number. -/
theorem Spelling.ne_lineNumber {reading : Reading} {taken after : Bytes}
    (spelling : Spelling false reading taken after) : reading ≠ .terminal .lineNumber := by
  rintro rfl
  have apart : Terminal.lineNumber ∉ operators.map Prod.snd ∧
      Terminal.lineNumber ∉ Terminal.keywords := by decide +kernel
  simpa [apart] using spelling.symbol_cases

/-- Nothing is left behind the end of the text or a string that is not closed. -/
theorem Spelling.eq_nil_of_last {isFirst : Bool} {reading : Reading} {taken after : Bytes}
    (spelling : Spelling isFirst reading taken after)
    (isLast : reading = .endOfText ∨ reading = .fault .unterminatedString) : after = [] := by
  cases spelling <;> simp_all

namespace Place

/-! ## One call -/

theorem mode_next_ne_opening (place : Place) : place.next.mode ≠ .opening :=
  place.recognition.reading.nextMode_ne_opening

/-- A remark is read in its mode, and only there. -/
theorem reading_eq_remarkString_iff {place : Place} :
    place.lexeme.reading = .terminal .remarkString ↔ place.mode = .remark := by
  constructor
  · intro isBody
    by_contra noRemark
    exact (spelling_lexeme noRemark).ne_remarkString isBody
  · intro isRemark
    rw [lexeme_of_remark isRemark]

theorem reading_ne_unaryMinus (place : Place) :
    place.lexeme.reading ≠ .terminal .unaryMinus := by
  by_cases isRemark : place.mode = .remark
  · rw [lexeme_of_remark isRemark]
    nofun
  · exact (spelling_lexeme isRemark).ne_unaryMinus

theorem reading_ne_lineNumber {place : Place} (later : place.mode ≠ .opening) :
    place.lexeme.reading ≠ .terminal .lineNumber := by
  by_cases isRemark : place.mode = .remark
  · rw [lexeme_of_remark isRemark]
    nofun
  · have spelled := spelling_lexeme isRemark
    rw [decide_eq_false later] at spelled
    exact spelled.ne_lineNumber

/-! ## Two calls in a row -/

/-- A remark is read right after its keyword, and nowhere else. -/
theorem reading_next_eq_remarkString_iff {place : Place} :
    place.next.lexeme.reading = .terminal .remarkString ↔
      place.lexeme.reading = .terminal .kwRem :=
  reading_eq_remarkString_iff.trans Reading.nextMode_eq_remark_iff

/-- A remark starts where its keyword ends. -/
theorem start_next_of_kwRem {place : Place} (isRem : place.lexeme.reading = .terminal .kwRem) :
    place.next.lexeme.start = place.lexeme.stop := by
  have isRemark : place.next.mode = .remark := Reading.nextMode_eq_remark_iff.mpr isRem
  rw [lexeme_of_remark isRemark, next_offset]

/-! ## Places that are done -/

/-- A place of a text with nothing but blanks left to read. -/
structure IsDone (text : Bytes) (place : Place) : Prop where
  noRemark : place.mode ≠ .remark
  blank : ∀ byte ∈ place.rest, isBlank byte = true
  length_rest : place.offset + place.rest.length = text.length

/-- A call that gives the end of a text and leaves nothing. -/
def GivesEnd (text : Bytes) (step : Lexeme × Place) : Prop :=
  step.1 = ⟨.endOfText, text.length, []⟩ ∧ step.2.isAtEnd = true

namespace IsDone

variable {text : Bytes} {place : Place}

theorem givesEnd (isDone : IsDone text place) : GivesEnd text (place.lexeme, place.next) := by
  obtain ⟨isEnd, rest_eq⟩ := lexeme_of_blank isDone.noRemark isDone.blank
  rw [isDone.length_rest] at isEnd
  exact ⟨isEnd, List.isEmpty_iff.mpr rest_eq⟩

theorem next (isDone : IsDone text place) : IsDone text place.next := by
  obtain ⟨isEnd, rest_eq⟩ := lexeme_of_blank isDone.noRemark isDone.blank
  have offset_eq : place.next.offset = text.length := by
    rw [next_offset, Lexeme.stop, isEnd, isDone.length_rest, List.length_nil, Nat.add_zero]
  constructor
  · intro isRemark
    have isRem : place.lexeme.reading = .terminal .kwRem :=
      Reading.nextMode_eq_remark_iff.mp isRemark
    rw [isEnd] at isRem
    cases isRem
  · rw [rest_eq]
    exact List.forall_mem_nil _
  · rw [rest_eq, offset_eq, List.length_nil, Nat.add_zero]

/-- Where a place is done every call gives the end of the text. -/
theorem givesEnd_of_mem_steps (isDone : IsDone text place) (count : Nat) :
    ∀ step ∈ place.steps count, GivesEnd text step := by
  induction count generalizing place with
  | zero => exact List.forall_mem_nil _
  | succ count ih => exact List.forall_mem_cons.mpr ⟨isDone.givesEnd, ih isDone.next⟩

end IsDone

/-- Where the end of a text is given nothing but blanks is left. -/
theorem isBlank_of_endOfText {place : Place} (ended : place.lexeme.reading = .endOfText) :
    place.mode ≠ .remark ∧ ∀ byte ∈ place.rest, isBlank byte = true := by
  obtain ⟨noRemark, nothingAhead⟩ := Recognition.ofText_reading_eq_endOfText_iff.mp ended
  refine ⟨noRemark, ?_⟩
  intro byte member
  have split := List.take_append_drop place.blanks place.rest
  rw [← split] at member
  rcases List.mem_append.mp member with member | member
  · exact isBlank_of_mem_take_blanks member
  · change byte ∈ place.ahead at member
    rw [nothingAhead] at member
    contradiction

theorem Follows.isDone {text : Bytes} {previous? : Option Lexeme} {place : Place}
    (follows : Follows text previous? place) (ended : place.lexeme.reading = .endOfText) :
    IsDone text place :=
  ⟨(isBlank_of_endOfText ended).1, (isBlank_of_endOfText ended).2, follows.length_rest⟩

/-- What ends the lexemes of a text: its end, a string that is not closed, and a
remark if the text is a single line. -/
def IsLast (text : Bytes) (reading : Reading) : Prop :=
  reading = .endOfText ∨ reading = .fault .unterminatedString ∨
    newline ∉ text.dropLast ∧ reading = .terminal .remarkString

/-- What ends the lexemes of a text leaves a place that is done. -/
theorem Follows.isDone_next {text : Bytes} {previous? : Option Lexeme} {place : Place}
    (follows : Follows text previous? place)
    (oneLine : newline ∉ text.dropLast → place.IsOneLine)
    (isLast : IsLast text place.lexeme.reading) : IsDone text place.next := by
  have blank : ∀ byte ∈ place.next.rest, isBlank byte = true := by
    by_cases isRemark : place.mode = .remark
    · have isBody := reading_eq_remarkString_iff.mpr isRemark
      rcases isLast with isLast | isLast | ⟨single, -⟩
      · rw [isBody] at isLast
        cases isLast
      · rw [isBody] at isLast
        cases isLast
      · exact (oneLine single).isBlank_of_mem_next_of_remark isRemark
    · have noBody := mt reading_eq_remarkString_iff.mp isRemark
      have isLast : place.lexeme.reading = .endOfText ∨
          place.lexeme.reading = .fault .unterminatedString :=
        isLast.imp_right fun isLast => isLast.resolve_right fun single => noBody single.2
      rw [(spelling_lexeme isRemark).eq_nil_of_last isLast]
      exact List.forall_mem_nil _
  refine ⟨?_, blank, follows.next.length_rest⟩
  intro isRemark
  have isRem : place.lexeme.reading = .terminal .kwRem :=
    Reading.nextMode_eq_remark_iff.mp isRemark
  rw [isRem] at isLast
  rcases isLast with isLast | isLast | ⟨-, isLast⟩ <;> cases isLast

/-! ## Runs of calls -/

/-- What holds of every call on a text holds along a run of calls. -/
theorem Follows.forall_mem_steps {text : Bytes} {holds : Lexeme × Place → Prop}
    (one : ∀ {previous? : Option Lexeme} {place : Place},
      Follows text previous? place → holds (place.lexeme, place.next))
    {previous? : Option Lexeme} {place : Place} (follows : Follows text previous? place)
    (count : Nat) : ∀ step ∈ place.steps count, holds step := by
  induction count generalizing previous? place with
  | zero => exact List.forall_mem_nil _
  | succ count ih => exact List.forall_mem_cons.mpr ⟨one follows, ih follows.next⟩

/-- What holds of every two calls in a row holds along a run. -/
theorem isChain_steps {R : Lexeme × Place → Lexeme × Place → Prop}
    (one : ∀ place : Place, R (place.lexeme, place.next) (place.next.lexeme, place.next.next))
    (count : Nat) (place : Place) : (place.steps count).IsChain R := by
  induction count generalizing place with
  | zero => exact .nil
  | succ count ih =>
      apply List.isChain_cons.mpr
      refine ⟨?_, ih place.next⟩
      cases count with
      | zero => nofun
      | succ count =>
          rintro _ ⟨rfl⟩
          exact one place

theorem reading_ne_lineNumber_of_mem_steps {place : Place} (later : place.mode ≠ .opening)
    (count : Nat) : ∀ step ∈ place.steps count, step.1.reading ≠ .terminal .lineNumber := by
  induction count generalizing place with
  | zero => exact List.forall_mem_nil _
  | succ count ih =>
      exact List.forall_mem_cons.mpr
        ⟨reading_ne_lineNumber later, ih place.mode_next_ne_opening⟩

/-- Behind what ends the lexemes of a text every call gives its end. -/
theorem Follows.pairwise_steps {text : Bytes} {previous? : Option Lexeme} {place : Place}
    (follows : Follows text previous? place)
    (oneLine : newline ∉ text.dropLast → place.IsOneLine) (count : Nat) :
    (place.steps count).Pairwise fun before after =>
      IsLast text before.1.reading → GivesEnd text after := by
  induction count generalizing previous? place with
  | zero => exact .nil
  | succ count ih =>
      apply List.pairwise_cons.mpr
      refine ⟨?_, ih follows.next fun single => (oneLine single).next⟩
      intro step stepMem isLast
      exact (follows.isDone_next oneLine isLast).givesEnd_of_mem_steps count step stepMem

end Place

/-- How the results of a run of calls on a text can follow each other. -/
structure Shape (text : Bytes) (steps : List (Lexeme × Place)) : Prop where
  /-- At most the first result is a line number. -/
  lineNumber : ∀ step ∈ steps.tail, step.1.reading ≠ .terminal .lineNumber
  unaryMinus : ∀ step ∈ steps, step.1.reading ≠ .terminal .unaryMinus
  /-- A remark has a result before it, which is its keyword. -/
  noFirstRemark : ∀ step ∈ steps.head?, step.1.reading ≠ .terminal .remarkString
  remark : steps.IsChain fun before after =>
    after.1.reading = .terminal .remarkString ↔ before.1.reading = .terminal .kwRem
  remarkStart : steps.IsChain fun before after =>
    before.1.reading = .terminal .kwRem → after.1.start = before.1.stop
  /-- What ends the lexemes of a text is followed by nothing but its end. -/
  last : steps.Pairwise fun before after =>
    Place.IsLast text before.1.reading → Place.GivesEnd text after
  ending : ∀ step ∈ steps, step.1.reading = .endOfText → Place.GivesEnd text step

/-- The results of every run of calls on a text have this shape. -/
theorem shape_steps (text : Bytes) (count : Nat) :
    Shape text ((Place.opening text).steps count) where
  lineNumber := by
    cases count with
    | zero => exact List.forall_mem_nil _
    | succ count =>
        exact Place.reading_ne_lineNumber_of_mem_steps (Place.mode_next_ne_opening _) count
  unaryMinus := by
    have start := Place.follows_opening text
    exact start.forall_mem_steps (fun _ => Place.reading_ne_unaryMinus _) count
  noFirstRemark := by
    cases count with
    | zero => nofun
    | succ count =>
        rintro _ ⟨rfl⟩
        exact mt Place.reading_eq_remarkString_iff.mp nofun
  remark := Place.isChain_steps (fun _ => Place.reading_next_eq_remarkString_iff) count _
  remarkStart := Place.isChain_steps (fun _ => Place.start_next_of_kwRem) count _
  last := (Place.follows_opening text).pairwise_steps id count
  ending := by
    have start := Place.follows_opening text
    exact start.forall_mem_steps (fun follows ended => (follows.isDone ended).givesEnd) count

/-- A remark that is empty, and calls behind the end. -/
example :
    ((Place.opening (Text.Utf8.encode "10 REM\n")).steps 5).map (·.1.reading) =
      [.terminal .lineNumber, .terminal .kwRem, .terminal .remarkString, .endOfText,
        .endOfText] := by
  decide +kernel

end MinBasic.Lexical
