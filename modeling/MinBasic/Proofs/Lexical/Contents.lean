import MinBasic.Proofs.Lexical.LineByLine

/-!
# What stands in strings and remarks

The bytes between the quotes of a closed string, and the bytes of a remark, do
not matter to the scan of their line.  Other bytes in their place, as long as
they end the string or the remark where it ended, give the same readings: those
before it where they were, and those behind it moved by the change of length.

A run of the scan passes lexemes over the bytes at the front of a text
(`Place.Passes`).  It passes the same lexemes when the text behind those bytes is
replaced by one that no lexeme can tell from it.  A text that starts, after its
blanks, with a quote or with the keyword of a remark is known by that start.
-/

namespace MinBasic.Lexical

open Computability Text Text.Ascii

/-! ## Replacing a part of a text -/

/-- A text with other bytes in place of those from `start` to `stop`. -/
def splice (text : Bytes) (start stop : Nat) (body : Bytes) : Bytes :=
  text.take start ++ (body ++ text.drop stop)

/-- A lexeme behind a part of the text that took `old` bytes and now takes
`new`. -/
def Lexeme.moved (old new : Nat) (lexeme : Lexeme) : Lexeme :=
  { lexeme with start := lexeme.start + new - old }

/-- A string in its quotes. -/
def inQuotes (body : Bytes) : Bytes :=
  quote :: (body ++ [quote])

theorem splice_append (front old rest body : Bytes) :
    splice (front ++ (old ++ rest)) front.length (front.length + old.length) body =
      front ++ (body ++ rest) := by
  rw [splice, List.take_left, List.drop_length_add_append, List.drop_left]

/-- Between its quotes a string can be given other bytes. -/
theorem splice_inQuotes (front old rest body : Bytes) :
    splice (front ++ (inQuotes old ++ rest)) (front.length + 1)
      (front.length + (inQuotes old).length - 1) body = front ++ (inQuotes body ++ rest) := by
  have opened : front ++ (inQuotes old ++ rest) = (front ++ [quote]) ++ (old ++ quote :: rest) := by
    simp [inQuotes]
  have start_eq : front.length + 1 = (front ++ [quote]).length := by simp
  have stop_eq : front.length + (inQuotes old).length - 1 =
      (front ++ [quote]).length + old.length := by
    simp only [inQuotes, List.length_cons, List.length_append, List.length_nil]
    omega
  rw [opened, start_eq, stop_eq, splice_append]
  simp [inQuotes]

/-! ## Spellings of strings and of the keyword of a remark -/

namespace Spelling

variable {isFirst : Bool} {taken after : Bytes}

theorem exists_inQuotes (spelling : Spelling isFirst (.terminal .quotedString) taken after) :
    ∃ body, taken = inQuotes body := by
  generalize reading_eq : Reading.terminal .quotedString = reading at spelling
  cases spelling with
  | closedString inside => exact ⟨_, rfl⟩
  | @operator _ _ symbol isOperator =>
      have apart : ∀ item ∈ operators, Reading.terminal .quotedString ≠ .terminal item.2 := by
        decide +kernel
      exact absurd reading_eq (apart _ isOperator)
  | keyword longest isKeyword spells =>
      have apart : ∀ keyword ∈ Terminal.keywords,
          Reading.terminal .quotedString ≠ .terminal keyword := by decide +kernel
      exact absurd reading_eq (apart _ isKeyword)
  | numeral opens longest => split at reading_eq <;> cases reading_eq
  | _ => cases reading_eq

/-- The keyword of a remark is spelled by letters, and stays spelled before any
text that starts with no letter. -/
theorem of_kwRem (spelling : Spelling isFirst (.terminal .kwRem) taken after) :
    Spells taken Terminal.kwRem.name ∧
      ∀ {after' : Bytes}, (∀ byte ∈ after'.head?, isLetter byte = false) →
        Spelling isFirst (.terminal .kwRem) taken after' := by
  generalize reading_eq : Reading.terminal .kwRem = reading at spelling
  cases spelling with
  | keyword longest isKeyword spells =>
      obtain ⟨rfl⟩ := reading_eq
      obtain ⟨letters, -⟩ := IsLongestPrefix.kstar_iff.mp longest
      exact ⟨spells, fun stops =>
        .keyword (IsLongestPrefix.kstar_iff.mpr ⟨letters, stops⟩) isKeyword spells⟩
  | @operator _ _ symbol isOperator =>
      have apart : ∀ item ∈ operators, Reading.terminal .kwRem ≠ .terminal item.2 := by
        decide +kernel
      exact absurd reading_eq (apart _ isOperator)
  | numeral opens longest => split at reading_eq <;> cases reading_eq
  | _ => cases reading_eq

end Spelling

/-- The keyword of a remark has a byte that is in no numeral. -/
theorem exists_not_isNumeralByte {word : Bytes} (spells : Spells word Terminal.kwRem.name) :
    ∃ byte ∈ word, Grammar.isNumeralByte byte = false := by
  cases spells with
  | @cons byte _ word _ isR _ =>
      refine ⟨byte, List.mem_cons_self, ?_⟩
      rcases isR with isUpper | isLower
      · obtain rfl : byte = 0x52 := UInt8.toNat_inj.mp isUpper
        rfl
      · obtain rfl : byte = 0x72 := UInt8.toNat_inj.mp isLower
        rfl

namespace Place

/-! ## Passing lexemes -/

/-- From the first place a scan passes the lexemes over the bytes `front`, and
stands at the second. -/
inductive Passes : Place → List Lexeme → Bytes → Place → Prop where
  | nothing (place : Place) : Passes place [] [] place
  | more {place reached : Place} {lexemes : List Lexeme} {front : Bytes}
      (isLexeme : place.lexeme.reading ≠ .endOfText)
      (later : Passes place.next lexemes front reached) :
      Passes place (place.lexeme :: lexemes)
        (place.rest.take place.blanks ++ (place.lexeme.text ++ front)) reached

/-- The first of the lexemes of a place can be passed. -/
theorem exists_passes {place : Place} {before later : List Lexeme}
    (split : place.lexemes = before ++ later) :
    ∃ front reached, Passes place before front reached ∧ reached.lexemes = later := by
  induction before generalizing place with
  | nil => exact ⟨[], place, .nothing place, split⟩
  | cons lexeme before ih =>
      obtain ⟨more, rfl, split'⟩ := lexemes_eq_cons_iff.mp split
      obtain ⟨front, reached, passes, lexemes_eq⟩ := ih split'.symm
      exact ⟨_, reached, .more more passes, lexemes_eq⟩

namespace Passes

variable {place reached : Place} {before : List Lexeme} {front : Bytes}

theorem rest_eq (passes : Passes place before front reached) :
    place.rest = front ++ reached.rest := by
  induction passes with
  | nothing => rfl
  | @more place _ _ _ _ _ ih =>
      rw [List.append_assoc, List.append_assoc, ← ih]
      exact place.rest_eq

theorem offset_eq (passes : Passes place before front reached) :
    reached.offset = place.offset + front.length := by
  induction passes with
  | nothing => rfl
  | @more place _ _ _ _ _ ih =>
      rw [ih, next_offset, List.length_append, List.length_append,
        List.length_take_of_le place.blanks_le, ← Nat.add_assoc, ← Nat.add_assoc]
      rfl

theorem lexemes_eq (passes : Passes place before front reached) :
    place.lexemes = before ++ reached.lexemes := by
  induction passes with
  | nothing => rfl
  | more isLexeme _ ih => rw [lexemes_of_more isLexeme, ih, List.cons_append]

theorem isOneLine (passes : Passes place before front reached) (oneLine : place.IsOneLine) :
    reached.IsOneLine := by
  induction passes with
  | nothing => exact oneLine
  | more _ _ ih => exact ih oneLine.next

/-- The same lexemes are passed when the text behind them is replaced by one that
no lexeme before it can tell from it. -/
theorem lexemes_replaced (passes : Passes place before front reached) (oneLine : place.IsOneLine)
    (more : reached.lexemes ≠ []) {rest : Bytes}
    (alike : ∀ kept, CanReplace (kept ++ reached.rest) (kept ++ rest)) :
    (place.withRest (front ++ rest)).lexemes = before ++ (reached.withRest rest).lexemes := by
  induction passes with
  | nothing => rfl
  | @more place reached before front isLexeme later ih =>
      have noRemark : place.mode ≠ .remark := by
        intro isRemark
        have none := oneLine.lexemes_next_of_remark isRemark
        rw [later.lexemes_eq, List.append_eq_nil_iff] at none
        exact more none.2
      have canReplace : CanReplace place.next.rest (front ++ rest) := later.rest_eq ▸ alike front
      obtain ⟨isSame, next_eq⟩ := lexeme_withRest noRemark isLexeme canReplace
      rw [List.append_assoc, List.append_assoc, List.cons_append, lexemes_eq_cons_iff, isSame,
        next_eq, ih oneLine.next more alike]
      exact ⟨isLexeme, rfl, rfl⟩

end Passes

/-! ## What is behind the replaced bytes -/

/-- Where a text is read further on or less far on, its lexemes are moved. -/
theorem lexemes_moved (offset old new : Nat) (rest : Bytes) (mode : Mode) :
    (Place.mk (offset + new) rest mode).lexemes =
      (Place.mk (offset + old) rest mode).lexemes.map (Lexeme.moved old new) := by
  have fromStart (bytes : Nat) : (Place.mk bytes rest mode).lexemes =
      (Place.mk 0 rest mode).lexemes.map (Lexeme.shift bytes) :=
    lexemes_shift bytes ⟨0, rest, mode⟩
  rw [fromStart (offset + new), fromStart (offset + old), List.map_map]
  apply List.map_congr_left
  intro lexeme _
  simp only [Function.comp_apply, Lexeme.shift, Lexeme.moved, Lexeme.mk.injEq, true_and, and_true]
  omega

/-- What is not read as a remark does not stand in one. -/
theorem noRemark_of_reading {place : Place} {reading : Reading}
    (isRead : place.lexeme.reading = reading) (noBody : reading ≠ .terminal .remarkString) :
    place.mode ≠ .remark :=
  fun isRemark => noBody (isRead.symm.trans (reading_eq_remarkString_iff.mpr isRemark))

/-- A string with other bytes in its quotes is read, and then what followed it. -/
theorem lexemes_of_inQuotes {place : Place}
    (isString : place.lexeme.reading = .terminal .quotedString) {body : Bytes}
    (inside : quote ∉ body ∧ newline ∉ body) :
    (place.withRest (place.rest.take place.blanks ++ (inQuotes body ++ place.next.rest))).lexemes =
      { place.lexeme with text := inQuotes body } ::
        place.next.lexemes.map
          (Lexeme.moved place.lexeme.text.length (inQuotes body).length) := by
  have spelled : Spelling (place.mode = .opening) (.terminal .quotedString) (inQuotes body)
      place.next.rest := .closedString inside
  obtain ⟨isSame, next_eq⟩ := lexeme_withRest_of_spelling (noRemark_of_reading isString nofun)
    (isLongestPrefix_of_not_isBlank (fun _ => isBlank_of_mem_take_blanks) rfl) spelled
  rw [← isString] at isSame next_eq
  rw [lexemes_eq_cons_iff]
  refine ⟨more_of_token isString, isSame.symm, ?_⟩
  rw [next_eq]
  exact (lexemes_moved ..).symm

/-- A remark is given other bytes. -/
theorem lexemes_of_remark {place : Place} (oneLine : place.IsOneLine)
    (isRemark : place.mode = .remark) {body : Bytes} (noNewline : newline ∉ body) :
    (place.withRest (body ++ place.next.rest)).lexemes =
      [{ place.lexeme with text := body }] := by
  obtain ⟨-, stops⟩ := IsLongestPrefix.kstar_iff.mp (isLongestPrefix_remark isRemark)
  have longest : IsLongestPrefix (ofClass (· ≠ newline))∗ (body ++ place.next.rest) body := by
    apply IsLongestPrefix.kstar_iff.mpr
    refine ⟨fun byte member => decide_eq_true ?_, stops⟩
    rintro rfl
    exact noNewline member
  have isRemark' : (place.withRest (body ++ place.next.rest)).mode = .remark := isRemark
  rw [lexemes_of_body isRemark' rfl longest (oneLine.isBlank_of_mem_next_of_remark isRemark),
    lexeme_of_remark isRemark]
  rfl

/-- The keyword of a remark before other bytes is read, and then they are. -/
theorem lexemes_of_kwRem {place : Place} (oneLine : place.IsOneLine)
    (isRem : place.lexeme.reading = .terminal .kwRem) {body : Bytes} (noNewline : newline ∉ body)
    (noLetter : ∀ byte ∈ body.head?, isLetter byte = false) :
    (place.withRest (place.rest.take place.blanks ++
        (place.lexeme.text ++ (body ++ place.next.next.rest)))).lexemes =
      [place.lexeme, { place.next.lexeme with text := body }] := by
  have more := more_of_token isRem
  have noRemark := noRemark_of_reading isRem nofun
  have isRemark : place.next.mode = .remark := Reading.nextMode_eq_remark_iff.mpr isRem
  have noLetter' : ∀ byte ∈ (body ++ place.next.next.rest).head?, isLetter byte = false := by
    cases body with
    | cons first body => exact noLetter
    | nil =>
        intro byte isHead
        obtain ⟨-, stops⟩ := IsLongestPrefix.kstar_iff.mp (isLongestPrefix_remark isRemark)
        have isNewline : byte = newline := by simpa using stops byte isHead
        rw [isNewline]
        rfl
  have spelled := spelling_lexeme noRemark
  rw [isRem] at spelled
  obtain ⟨isSame, next_eq⟩ := lexeme_withRest_of_spelling noRemark
    (isLongestPrefix_gap noRemark more (fun _ => isBlank_of_mem_take_blanks) _)
    (spelled.of_kwRem.2 noLetter')
  rw [← isRem] at isSame next_eq
  rw [lexemes_eq_cons_iff, isSame, next_eq]
  exact ⟨more, rfl, (lexemes_of_remark oneLine.next isRemark noNewline).symm⟩

/-! ## Refilled lines -/

namespace Passes

variable {line : Bytes} {reached : Place} {before : List Lexeme} {front : Bytes}

/-- Behind the passed lexemes and blanks stands the lexeme that was reached, at its
start. -/
theorem eq_append_text (passes : Passes (opening line) before front reached) :
    line = (front ++ reached.rest.take reached.blanks) ++
        (reached.lexeme.text ++ reached.next.rest) ∧
      (front ++ reached.rest.take reached.blanks).length = reached.lexeme.start := by
  constructor
  · have split := passes.rest_eq
    rw [reached.rest_eq, ← List.append_assoc] at split
    exact split
  · have offset_eq : reached.offset = front.length := passes.offset_eq.trans (Nat.zero_add _)
    rw [List.length_append, List.length_take_of_le reached.blanks_le, ← offset_eq]
    rfl

/-- Behind the keyword of a remark stands the remark, at its start. -/
theorem eq_append_body (passes : Passes (opening line) before front reached)
    (isRem : reached.lexeme.reading = .terminal .kwRem) :
    line = (front ++ reached.rest.take reached.blanks ++ reached.lexeme.text) ++
        (reached.next.lexeme.text ++ reached.next.next.rest) ∧
      (front ++ reached.rest.take reached.blanks ++ reached.lexeme.text).length =
        reached.next.lexeme.start := by
  obtain ⟨line_eq, start_eq⟩ := passes.eq_append_text
  have isRemark : reached.next.mode = .remark := Reading.nextMode_eq_remark_iff.mpr isRem
  have noBlanks : reached.next.blanks = 0 := by rw [blanks, isRemark]
  have rest_eq := reached.next.rest_eq
  rw [noBlanks, List.take_zero, List.nil_append] at rest_eq
  constructor
  · rwa [rest_eq, ← List.append_assoc _ reached.lexeme.text] at line_eq
  · rw [start_next_of_kwRem isRem, List.length_append, start_eq]
    rfl

/-- A line has no newline up to the end of a lexeme that has none. -/
theorem newline_not_mem (passes : Passes (opening line) before front reached)
    (oneLine : newline ∉ line.dropLast) (nonempty : reached.lexeme.text ≠ [])
    (closed : reached.lexeme.reading ≠ .fault .unterminatedString) :
    newline ∉ front ++ reached.rest.take reached.blanks ++ reached.lexeme.text := by
  rw [passes.eq_append_text.1] at oneLine
  have inFront := newline_not_mem_of_append oneLine (List.append_ne_nil_of_left_ne_nil nonempty _)
  exact List.mem_append.not.mpr (not_or.mpr ⟨inFront, newline_not_mem_text closed⟩)

/-- A string that was reached is given other bytes. -/
theorem refill_string (passes : Passes (opening line) before front reached)
    (oneLine : newline ∉ line.dropLast)
    (isString : reached.lexeme.reading = .terminal .quotedString)
    {body : Bytes} (inside : quote ∉ body ∧ newline ∉ body) :
    let line' := splice line (reached.lexeme.start + 1) (reached.lexeme.stop - 1) body
    StandsFor line line' ∧
      line'.length + reached.lexeme.text.length = line.length + (inQuotes body).length ∧
      Lexical.lexemes line' = before ++ { reached.lexeme with text := inQuotes body } ::
        reached.next.lexemes.map
          (Lexeme.moved reached.lexeme.text.length (inQuotes body).length) := by
  have more := lexemes_ne_nil (more_of_token isString)
  have spelled := spelling_lexeme (noRemark_of_reading isString nofun)
  rw [isString] at spelled
  obtain ⟨old, text_eq⟩ := spelled.exists_inQuotes
  obtain ⟨line_eq, start_eq⟩ := passes.eq_append_text
  have line'_eq : splice line (reached.lexeme.start + 1) (reached.lexeme.stop - 1) body =
      (front ++ reached.rest.take reached.blanks) ++ (inQuotes body ++ reached.next.rest) := by
    rw [Lexeme.stop, ← start_eq, line_eq, text_eq, splice_inQuotes]
  intro line'
  rw [show line' = _ from line'_eq]
  refine ⟨?_, ?_, ?_⟩
  · have noNewline : newline ∉ inQuotes body := by
      have noQuote : newline ≠ quote := by decide
      simp [inQuotes, noQuote, inside.2]
    have noNewline' := passes.newline_not_mem oneLine (text_eq.trans_ne (List.cons_ne_nil _ _))
      (noFault_of_token isString _)
    rw [line_eq, ← List.append_assoc] at oneLine ⊢
    rw [← List.append_assoc]
    apply StandsFor.of_append _ noNewline' _ oneLine
    · simp [inQuotes]
    · rw [List.mem_append, not_or] at noNewline' ⊢
      exact ⟨noNewline'.1, noNewline⟩
  · rw [line_eq]
    simp only [List.length_append]
    omega
  · have alike : ∀ kept, CanReplace (kept ++ reached.rest)
        (kept ++ (reached.rest.take reached.blanks ++ (inQuotes body ++ reached.next.rest))) := by
      intro kept
      rw [← List.append_assoc]
      apply CanReplace.atStop _ _ isStop_quote
      · rw [reached.rest_eq, text_eq]
        simp [inQuotes]
      · exact (List.prefix_append_right_inj kept).mpr (List.take_prefix _ _)
    rw [← lexemes_of_inQuotes isString inside, ← passes.lexemes_replaced oneLine more alike,
      List.append_assoc]
    rfl

/-- The remark behind a keyword that was reached is given other bytes. -/
theorem refill_remark (passes : Passes (opening line) before front reached)
    (oneLine : newline ∉ line.dropLast) (isRem : reached.lexeme.reading = .terminal .kwRem)
    {body : Bytes} (noNewline : newline ∉ body)
    (noLetter : ∀ byte ∈ body.head?, isLetter byte = false) :
    let line' := splice line reached.next.lexeme.start reached.next.lexeme.stop body
    StandsFor line line' ∧
      line'.length + reached.next.lexeme.text.length = line.length + body.length ∧
      Lexical.lexemes line' =
        before ++ [reached.lexeme, { reached.next.lexeme with text := body }] := by
  have more := lexemes_ne_nil (more_of_token isRem)
  have spelled := spelling_lexeme (noRemark_of_reading isRem nofun)
  rw [isRem] at spelled
  obtain ⟨byte, member, noNumeral⟩ := exists_not_isNumeralByte spelled.of_kwRem.1
  have nonempty : reached.lexeme.text ≠ [] := List.ne_nil_of_mem member
  obtain ⟨line_eq, start_eq⟩ := passes.eq_append_body isRem
  have line'_eq : splice line reached.next.lexeme.start reached.next.lexeme.stop body =
      (front ++ reached.rest.take reached.blanks ++ reached.lexeme.text) ++
        (body ++ reached.next.next.rest) := by
    rw [Lexeme.stop, ← start_eq, line_eq, splice_append]
  intro line'
  rw [show line' = _ from line'_eq]
  refine ⟨?_, ?_, ?_⟩
  · have noNewline' := passes.newline_not_mem oneLine nonempty (noFault_of_token isRem _)
    have noNewline'' : newline ∉ reached.next.lexeme.text :=
      newline_not_mem_text (noFault_of_token (reading_next_eq_remarkString_iff.mpr isRem) _)
    rw [line_eq, ← List.append_assoc] at oneLine ⊢
    rw [← List.append_assoc]
    apply StandsFor.of_append _ _ _ oneLine
    · exact List.append_ne_nil_of_left_ne_nil (List.append_ne_nil_of_right_ne_nil _ nonempty) _
    · exact List.mem_append.not.mpr (not_or.mpr ⟨noNewline', noNewline''⟩)
    · exact List.mem_append.not.mpr (not_or.mpr ⟨noNewline', noNewline⟩)
  · rw [line_eq]
    simp only [List.length_append]
    omega
  · have alike : ∀ kept, CanReplace (kept ++ reached.rest)
        (kept ++ (reached.rest.take reached.blanks ++
          (reached.lexeme.text ++ (body ++ reached.next.next.rest)))) := by
      intro kept
      rw [← List.append_assoc, ← List.append_assoc]
      apply CanReplace.behind _ (List.mem_append_right _ member) noNumeral
      rw [List.append_assoc, List.prefix_append_right_inj]
      exact ⟨reached.next.rest, by rw [List.append_assoc, ← reached.rest_eq]⟩
    have refilled := lexemes_of_kwRem (passes.isOneLine oneLine) isRem noNewline noLetter
    rw [← refilled, ← passes.lexemes_replaced oneLine more alike, List.append_assoc,
      List.append_assoc]
    rfl

end Passes

end Place

/-- A line with other bytes inside a closed string or as a remark, and the lexeme
that is made of them. -/
inductive Refills (line : Bytes) (lexeme : Lexeme) : Bytes → Lexeme → Prop where
  | string {body : Bytes} (isString : lexeme.reading = .terminal .quotedString)
      (inside : quote ∉ body ∧ newline ∉ body) :
      Refills line lexeme (splice line (lexeme.start + 1) (lexeme.stop - 1) body)
        { lexeme with text := inQuotes body }
  | remark {body : Bytes} (isRemark : lexeme.reading = .terminal .remarkString)
      (noNewline : newline ∉ body) (noLetter : ∀ byte ∈ body.head?, isLetter byte = false) :
      Refills line lexeme (splice line lexeme.start lexeme.stop body) { lexeme with text := body }

namespace Refills

variable {line line' : Bytes} {lexeme lexeme' : Lexeme} {before later : List Lexeme}

/-- What is refilled is read as before. -/
theorem reading_eq (refills : Refills line lexeme line' lexeme') :
    lexeme'.reading = lexeme.reading ∧ lexeme'.start = lexeme.start := by
  cases refills <;> exact ⟨rfl, rfl⟩

/-- Strings and remarks are tokens. -/
theorem exists_token (refills : Refills line lexeme line' lexeme') :
    ∃ token, lexeme.reading = .token token := by
  cases refills with
  | string isString => exact ⟨_, isString⟩
  | remark isRemark => exact ⟨_, isRemark⟩

/-- A refilled line is a line, and its other lexemes are those of the line, behind
the refilled one moved by its change of length. -/
theorem lexemes_eq (refills : Refills line lexeme line' lexeme') (oneLine : newline ∉ line.dropLast)
    (split : lexemes line = before ++ lexeme :: later) :
    StandsFor line line' ∧
      line'.length + lexeme.text.length = line.length + lexeme'.text.length ∧
      lexemes line' = before ++ lexeme' ::
        later.map (Lexeme.moved lexeme.text.length lexeme'.text.length) := by
  cases refills with
  | string isString inside =>
      obtain ⟨front, reached, passes, lexemes_eq⟩ := Place.exists_passes split
      obtain ⟨-, rfl, rfl⟩ := Place.lexemes_eq_cons_iff.mp lexemes_eq
      exact passes.refill_string oneLine isString inside
  | remark isRemark noNewline noLetter =>
      rcases List.eq_nil_or_concat before with rfl | ⟨before, keyword, rfl⟩
      · obtain ⟨-, rfl, -⟩ := Place.lexemes_eq_cons_iff.mp split
        exact absurd (Place.reading_eq_remarkString_iff.mp isRemark) nofun
      · rw [List.concat_eq_append, List.append_assoc, List.singleton_append] at split ⊢
        obtain ⟨front, reached, passes, lexemes_eq⟩ := Place.exists_passes split
        obtain ⟨-, rfl, later_eq⟩ := Place.lexemes_eq_cons_iff.mp lexemes_eq
        obtain ⟨-, rfl, rfl⟩ := Place.lexemes_eq_cons_iff.mp later_eq.symm
        have isRem := Place.reading_next_eq_remarkString_iff.mp isRemark
        rw [((passes.isOneLine oneLine).next).lexemes_next_of_remark
          (Place.reading_eq_remarkString_iff.mp isRemark)]
        exact passes.refill_remark oneLine isRem noNewline noLetter

end Refills

/-! ## Results of a scan -/

/-- Before the end of a text a scan gives its lexemes. -/
theorem exists_lexemes_eq_of_scan_eq {text : Bytes} {before later : List Lexeme} {lexeme : Lexeme}
    (split : scan text = before ++ lexeme :: later) (more : lexeme.reading ≠ .endOfText) :
    ∃ later', later = later' ++ [⟨.endOfText, text.length, []⟩] ∧
      lexemes text = before ++ lexeme :: later' := by
  rw [scan_eq] at split
  rcases List.eq_nil_or_concat later with rfl | ⟨later, last, rfl⟩
  · obtain ⟨-, isEnd⟩ := List.append_inj' split rfl
    obtain ⟨rfl, -⟩ := List.cons.inj isEnd
    exact absurd rfl more
  · rw [List.concat_eq_append, ← List.cons_append, ← List.append_assoc] at split
    obtain ⟨lexemes_eq, isEnd⟩ := List.append_inj' split rfl
    obtain ⟨rfl, -⟩ := List.cons.inj isEnd
    exact ⟨later, List.concat_eq_append, lexemes_eq⟩

/-- The results of a scan stand one behind the other. -/
theorem pairwise_scan (text : Bytes) :
    (scan text).Pairwise fun before after => before.stop ≤ after.start :=
  List.pairwise_map.mpr ((calls_lossless text).1 _).pairwise.2

/-- A refilled line is scanned like the line. -/
theorem Refills.scan_eq {line line' : Bytes} {lexeme lexeme' : Lexeme} {before later : List Lexeme}
    (refills : Refills line lexeme line' lexeme') (oneLine : newline ∉ line.dropLast)
    (split : scan line = before ++ lexeme :: later) :
    scan line' = before ++ lexeme' ::
      later.map (Lexeme.moved lexeme.text.length lexeme'.text.length) := by
  obtain ⟨token, isToken⟩ := refills.exists_token
  obtain ⟨later, rfl, split'⟩ := exists_lexemes_eq_of_scan_eq split (by rw [isToken]; nofun)
  obtain ⟨-, length_eq, lexemes_eq⟩ := refills.lexemes_eq oneLine split'
  have moved_end : Lexeme.moved lexeme.text.length lexeme'.text.length
      ⟨.endOfText, line.length, []⟩ = ⟨.endOfText, line'.length, []⟩ := by
    rw [Lexeme.moved, ← length_eq, Nat.add_sub_cancel]
  rw [Lexical.scan_eq, lexemes_eq, List.map_append, List.map_singleton, moved_end,
    List.append_assoc, List.cons_append]

end MinBasic.Lexical
