import MinBasic.Proofs.Lexical.Shape
import MinBasic.Proofs.Text.Characters

/-!
# Scanning whole characters

On UTF-8 text every call skips and covers whole characters.  A lexeme starts at the
start of the text, where another one ended or behind blanks; it ends in a byte of
ASCII, or where no continuation byte follows.  An unexpected character is covered
by a fault of its own, so the characters that are at fault in this way are those
that no other lexeme covers, without the blanks.
-/

namespace MinBasic.Lexical

open Computability Text Text.Ascii
open Text.Utf8 (encodeChars isContinuation)

/-! ## Where a lexeme ends -/

theorem lt_of_isDigit {byte : UInt8} (digit : isDigit byte = true) : byte < 0x80 := by
  simp only [isDigit, Bool.and_eq_true, decide_eq_true_eq, UInt8.le_iff_toNat_le,
    UInt8.lt_iff_toNat_lt, UInt8.reduceToNat] at *
  omega

theorem lt_of_isLetter {byte : UInt8} (letter : isLetter byte = true) : byte < 0x80 := by
  simp only [isLetter, isUpper, isLower, Bool.or_eq_true, Bool.and_eq_true, decide_eq_true_eq,
    UInt8.le_iff_toNat_le, UInt8.lt_iff_toNat_lt, UInt8.reduceToNat] at *
  omega

theorem lt_of_isBlank {byte : UInt8} (blank : isBlank byte = true) : byte < 0x80 := by
  simp only [isBlank, Bool.or_eq_true, decide_eq_true_eq, ← UInt8.toNat_inj,
    UInt8.lt_iff_toNat_lt, UInt8.reduceToNat] at *
  omega

theorem lt_of_isNumeralByte {byte : UInt8} (inNumeral : Grammar.isNumeralByte byte = true) :
    byte < 0x80 := by
  simp only [Grammar.isNumeralByte, isDigit, point, isExponentMark, isSign, Bool.or_eq_true,
    Bool.and_eq_true, decide_eq_true_eq, UInt8.le_iff_toNat_le, ← UInt8.toNat_inj,
    UInt8.lt_iff_toNat_lt, UInt8.reduceToNat] at *
  omega

/-- A byte that neither leads nor continues a character is ASCII. -/
theorem lt_of_not_continued {byte : UInt8} (notContinued : isContinuation byte = false)
    (noLead : ¬ 0xC0 ≤ byte) : byte < 0x80 := by
  rw [isContinuation, decide_eq_true (UInt8.not_le.mp noLead), Bool.and_true,
    decide_eq_false_iff_not] at notContinued
  exact UInt8.not_le.mp notContinued

namespace Spelling

variable {isFirst : Bool} {reading : Reading} {taken after : Bytes}

/-- A lexeme that does not start inside a character does not end inside one: it ends
in a byte of ASCII, or no continuation byte follows it. -/
theorem ends (spelling : Spelling isFirst reading taken after)
    (starts : ∀ byte ∈ (taken ++ after).head?, isContinuation byte = false) :
    (∀ byte ∈ taken.getLast?, byte < 0x80) ∨
      ∀ byte ∈ after.head?, isContinuation byte = false := by
  have inClass {accepts : UInt8 → Bool} {word : Bytes}
      (ascii : ∀ {byte}, accepts byte = true → byte < 0x80)
      (accepted : word ∈ (ofClass accepts)∗) : ∀ byte ∈ word.getLast?, byte < 0x80 :=
    fun byte isLast =>
      ascii (mem_kstar_ofClass_iff.mp accepted byte (List.mem_of_mem_getLast? isLast))
  cases spelling with
  | nothing => exact Or.inl nofun
  | symbol isSymbol =>
      have ascii : ∀ byte ∈ symbols, byte < 0x80 := by decide +kernel
      apply Or.inl
      rintro _ ⟨rfl⟩
      exact ascii _ isSymbol
  | operator isOperator =>
      have ascii : ∀ item ∈ operators, ∀ byte ∈ item.1.getLast?, byte < 0x80 := by decide +kernel
      exact Or.inl (ascii _ isOperator)
  | comparison isComparison alone =>
      have ascii : ∀ byte ∈ comparisons, byte < 0x80 := by decide +kernel
      apply Or.inl
      rintro _ ⟨rfl⟩
      exact ascii _ isComparison
  | closedString inside =>
      apply Or.inl
      rw [← List.cons_append, List.getLast?_concat]
      rintro _ ⟨rfl⟩
      decide
  | openString unclosed => exact Or.inr nofun
  | numeral opens longest =>
      exact Or.inl (inClass lt_of_isNumeralByte (Grammar.numeral_le_numeralBytes longest.mem))
  | keyword longest isKeyword spells => exact Or.inl (inClass lt_of_isLetter longest.mem)
  | identifier longest noDigit => exact Or.inl (inClass lt_of_isLetter longest.mem)
  | numberedIdentifier isLetter isDigit =>
      apply Or.inl
      rintro _ ⟨rfl⟩
      exact lt_of_isDigit isDigit
  | unrecognized longest isLong unknown => exact Or.inl (inClass lt_of_isLetter longest.mem)
  | @unexpected byte trail _ noSymbol noComparison noQuote noNumeral noLetter longest =>
      split at longest
      · exact Or.inr (IsLongestPrefix.kstar_iff.mp longest).2
      · rename_i noLead
        apply Or.inl
        rw [longest]
        rintro _ ⟨rfl⟩
        exact lt_of_not_continued (starts _ rfl) noLead

/-- An unexpected byte is covered with continuation bytes only. -/
theorem exists_trail (spelling : Spelling isFirst (.fault .unexpectedCharacter) taken after) :
    ∃ byte trail, taken = byte :: trail ∧ ∀ next ∈ trail, isContinuation next = true := by
  generalize reading_eq : Reading.fault .unexpectedCharacter = reading at spelling
  cases spelling with
  | unexpected noSymbol noComparison noQuote noNumeral noLetter longest =>
      refine ⟨_, _, rfl, ?_⟩
      split at longest
      · exact mem_kstar_ofClass_iff.mp longest.mem
      · rw [longest]
        exact nofun
  | _ => cases reading_eq

end Spelling

namespace Place

/-- The next lexeme of a place that does not end inside a character, if it does not
start inside one. -/
theorem ends {place : Place}
    (starts : ∀ byte ∈ (place.lexeme.text ++ place.next.rest).head?, isContinuation byte = false) :
    (∀ byte ∈ place.lexeme.text.getLast?, byte < 0x80) ∨
      ∀ byte ∈ place.next.rest.head?, isContinuation byte = false := by
  by_cases isRemark : place.mode = .remark
  · obtain ⟨-, stops⟩ := IsLongestPrefix.kstar_iff.mp (isLongestPrefix_remark isRemark)
    apply Or.inr
    intro byte isHead
    have isNewline : byte = newline := by simpa using stops byte isHead
    rw [isNewline]
    decide
  · exact (spelling_lexeme isRemark).ends starts

/-- Before whole characters a call skips and covers whole characters. -/
theorem exists_characters {place : Place} {chars : List Char}
    (rest_eq : place.rest = encodeChars chars) :
    ∃ skipped covered later, chars = skipped ++ (covered ++ later) ∧
      place.rest.take place.blanks = encodeChars skipped ∧
      place.lexeme.text = encodeChars covered ∧ place.next.rest = encodeChars later := by
  have split := place.rest_eq
  have blank : ∀ byte ∈ (place.rest.take place.blanks).getLast?, byte < 0x80 := fun byte isLast =>
    lt_of_isBlank (isBlank_of_mem_take_blanks (List.mem_of_mem_getLast? isLast))
  generalize place.rest.take place.blanks = gap at split blank ⊢
  rw [rest_eq] at split
  obtain ⟨skipped, ahead, rfl, rfl, ahead_eq⟩ :=
    Utf8.exists_of_encodeChars_eq_append_of_ends split (Or.inl blank)
  have starts := Utf8.not_continued_of_mem_head? ahead
  rw [← ahead_eq] at starts
  obtain ⟨covered, later, rfl, text_eq, next_eq⟩ :=
    Utf8.exists_of_encodeChars_eq_append_of_ends ahead_eq.symm (ends starts)
  exact ⟨skipped, covered, later, rfl, rfl, text_eq, next_eq⟩

/-- An unexpected character is covered by a fault of its own. -/
theorem exists_character_of_unexpected {place : Place} {covered : List Char}
    (isFault : place.lexeme.reading = .fault .unexpectedCharacter)
    (text_eq : place.lexeme.text = encodeChars covered) : ∃ c, covered = [c] := by
  have spelled := spelling_lexeme (noRemark_of_fault isFault)
  rw [isFault, text_eq] at spelled
  obtain ⟨byte, trail, bytes_eq, continued⟩ := spelled.exists_trail
  cases covered with
  | nil => contradiction
  | cons c others =>
      refine ⟨c, congrArg (c :: ·) ?_⟩
      obtain ⟨first, trail', character_eq, -⟩ := (Utf8.characterBytes c).not_continued
      rw [Utf8.encodeChars_cons, character_eq, List.cons_append] at bytes_eq
      obtain ⟨-, rfl⟩ := List.cons.inj bytes_eq
      cases others with
      | nil => rfl
      | cons other others =>
          obtain ⟨lead, trail, other_eq, notContinued⟩ := (Utf8.characterBytes other).not_continued
          have isContinued := continued lead (by simp [Utf8.encodeChars_cons, other_eq])
          rw [notContinued] at isContinued
          contradiction

end Place

/-! ## Spans of whole characters -/

/-- An offset between two characters of a text, or at its start or end. -/
def IsBoundary (chars : List Char) (offset : Nat) : Prop :=
  ∃ front back, chars = front ++ back ∧ offset = (encodeChars front).length

/-- A lexeme that covers whole characters of a text, and a single one if that is
unexpected. -/
structure CoversCharacters (chars : List Char) (lexeme : Lexeme) : Prop where
  start : IsBoundary chars lexeme.start
  stop : IsBoundary chars lexeme.stop
  unexpected : lexeme.reading = .fault .unexpectedCharacter →
    ∃ c ∈ chars, lexeme.text = String.utf8EncodeChar c

namespace Place

/-- A place between two characters of a text. -/
def AtBoundary (chars : List Char) (place : Place) : Prop :=
  ∃ front back, chars = front ++ back ∧ place.offset = (encodeChars front).length ∧
    place.rest = encodeChars back

theorem atBoundary_opening (chars : List Char) :
    (opening (encodeChars chars)).AtBoundary chars :=
  ⟨[], chars, rfl, rfl, rfl⟩

variable {chars : List Char} {place : Place}

/-- A call between two characters leaves its place between two characters. -/
theorem AtBoundary.step (atBoundary : AtBoundary chars place) :
    CoversCharacters chars place.lexeme ∧ AtBoundary chars place.next := by
  obtain ⟨front, back, rfl, offset_eq, rest_eq⟩ := atBoundary
  obtain ⟨skipped, covered, later, rfl, gap_eq, text_eq, next_eq⟩ := exists_characters rest_eq
  have start_eq : place.lexeme.start = (encodeChars (front ++ skipped)).length := by
    rw [Utf8.encodeChars_append, List.length_append, ← gap_eq,
      List.length_take_of_le place.blanks_le, ← offset_eq]
    rfl
  have stop_eq : place.lexeme.stop = (encodeChars (front ++ skipped ++ covered)).length := by
    rw [Lexeme.stop, start_eq, text_eq, Utf8.encodeChars_append (front ++ skipped),
      List.length_append]
  have chars_eq : front ++ (skipped ++ (covered ++ later)) =
      front ++ skipped ++ covered ++ later := by
    simp only [List.append_assoc]
  refine ⟨⟨⟨_, covered ++ later, (List.append_assoc ..).symm, start_eq⟩,
    ⟨_, later, chars_eq, stop_eq⟩, ?_⟩, ⟨_, later, chars_eq, stop_eq, next_eq⟩⟩
  intro isFault
  obtain ⟨c, rfl⟩ := exists_character_of_unexpected isFault text_eq
  exact ⟨c, by simp, by rw [text_eq, Utf8.encodeChars_singleton]⟩

theorem AtBoundary.calls (atBoundary : AtBoundary chars place) (count : Nat) :
    ∀ lexeme ∈ place.calls count, CoversCharacters chars lexeme := by
  induction count generalizing place with
  | zero => exact nofun
  | succ count ih =>
      obtain ⟨covers, next⟩ := atBoundary.step
      exact List.forall_mem_cons.mpr ⟨covers, ih next⟩

end Place

/-! ## Characters that no other lexeme covers -/

/-- Characters with the offsets of their first bytes. -/
def placed : Nat → List Char → List (Nat × Char)
  | _, [] => []
  | offset, c :: chars => (offset, c) :: placed (offset + (String.utf8EncodeChar c).length) chars

/-- An offset that no lexeme covers but an unexpected character. -/
def IsOutside (lexemes : List Lexeme) (offset : Nat) : Prop :=
  ∀ lexeme ∈ lexemes, lexeme.reading ≠ .fault .unexpectedCharacter →
    ¬ (lexeme.start ≤ offset ∧ offset < lexeme.stop)

instance (lexemes : List Lexeme) (offset : Nat) : Decidable (IsOutside lexemes offset) :=
  inferInstanceAs (Decidable (∀ lexeme ∈ lexemes, lexeme.reading ≠ .fault .unexpectedCharacter →
    ¬ (lexeme.start ≤ offset ∧ offset < lexeme.stop)))

/-- The characters that are not blank and that no lexeme covers but an unexpected
character. -/
def strays (lexemes : List Lexeme) (characters : List (Nat × Char)) : List (Nat × Char) :=
  characters.filter fun character =>
    !Utf8.isAsciiBlank character.2 && decide (IsOutside lexemes character.1)

/-- The lexemes that are unexpected characters. -/
def unexpected (lexemes : List Lexeme) : List Lexeme :=
  lexemes.filter fun lexeme => lexeme.reading = .fault .unexpectedCharacter

theorem placed_append (offset : Nat) (front back : List Char) :
    placed offset (front ++ back) =
      placed offset front ++ placed (offset + (encodeChars front).length) back := by
  induction front generalizing offset with
  | nil => rfl
  | cons c front ih =>
      rw [List.cons_append, placed, placed, ih, List.cons_append, Utf8.encodeChars_cons,
        List.length_append, Nat.add_assoc]

theorem bounds_of_mem_placed {offset : Nat} {chars : List Char} {character : Nat × Char}
    (member : character ∈ placed offset chars) :
    offset ≤ character.1 ∧ character.1 < offset + (encodeChars chars).length ∧
      character.2 ∈ chars := by
  induction chars generalizing offset with
  | nil => contradiction
  | cons c chars ih =>
      have pos : 0 < (String.utf8EncodeChar c).length := by
        rw [String.length_utf8EncodeChar]
        exact c.utf8Size_pos
      rw [Utf8.encodeChars_cons, List.length_append]
      rcases List.mem_cons.mp member with rfl | member
      · exact ⟨Nat.le_refl _, by dsimp only; omega, List.mem_cons_self⟩
      · obtain ⟨lower, upper, inChars⟩ := ih member
        exact ⟨by omega, by omega, List.mem_cons_of_mem _ inChars⟩

theorem strays_append (lexemes : List Lexeme) (first second : List (Nat × Char)) :
    strays lexemes (first ++ second) = strays lexemes first ++ strays lexemes second :=
  List.filter_append ..

/-- No blank is a stray character. -/
theorem strays_of_blank (lexemes : List Lexeme) (offset : Nat) {chars : List Char}
    (blank : ∀ byte ∈ encodeChars chars, isBlank byte = true) :
    strays lexemes (placed offset chars) = [] := by
  apply List.filter_eq_nil_iff.mpr
  intro character member
  have inChars := (bounds_of_mem_placed member).2.2
  have shape := Utf8.characterBytes character.2
  obtain ⟨first, trail, bytes_eq, -⟩ := shape.not_continued
  rw [bytes_eq] at shape
  have isBlank : isBlank first = true :=
    blank first (List.mem_flatMap.mpr ⟨_, inChars, by rw [bytes_eq]; exact List.mem_cons_self⟩)
  rw [← shape.isBlank_eq, isBlank]
  exact nofun

/-- No character in a lexeme is a stray one, unless that is an unexpected character. -/
theorem strays_of_covered {lexemes : List Lexeme} {lexeme : Lexeme} {covered : List Char}
    (member : lexeme ∈ lexemes) (other : lexeme.reading ≠ .fault .unexpectedCharacter)
    (text_eq : lexeme.text = encodeChars covered) :
    strays lexemes (placed lexeme.start covered) = [] := by
  apply List.filter_eq_nil_iff.mpr
  intro character isPlaced
  obtain ⟨lower, upper, -⟩ := bounds_of_mem_placed isPlaced
  rw [← text_eq] at upper
  have inside : ¬ IsOutside lexemes character.1 := fun outside =>
    outside lexeme member other ⟨lower, upper⟩
  rw [decide_eq_false inside, Bool.and_false]
  exact nofun

/-- A lexeme does not matter to the characters behind it. -/
theorem strays_cons {lexeme : Lexeme} {lexemes : List Lexeme} {characters : List (Nat × Char)}
    (behind : ∀ character ∈ characters, lexeme.stop ≤ character.1) :
    strays (lexeme :: lexemes) characters = strays lexemes characters := by
  apply List.filter_congr
  intro character member
  have outside_iff : IsOutside (lexeme :: lexemes) character.1 ↔
      IsOutside lexemes character.1 := by
    have notHere : ¬ (lexeme.start ≤ character.1 ∧ character.1 < lexeme.stop) :=
      fun inside => absurd (behind character member) (Nat.not_le.mpr inside.2)
    rw [IsOutside, List.forall_mem_cons]
    exact and_iff_right fun _ => notHere
  rw [decide_eq_decide.mpr outside_iff]

namespace Place

/-- No lexeme starts before its place. -/
theorem offset_le_of_mem_lexemes {place : Place} {lexeme : Lexeme}
    (member : lexeme ∈ place.lexemes) : place.offset ≤ lexeme.start := by
  induction place using lexemes.induct with
  | case1 place isEnd =>
      rw [lexemes_of_endOfText isEnd] at member
      contradiction
  | case2 place more ih =>
      rw [lexemes_of_more more] at member
      rcases List.mem_cons.mp member with rfl | member
      · exact Nat.le_add_right _ _
      · exact (Follows.offset_le_offset_after place 1).trans (ih member)

/-- What is covered by the fault of an unexpected character is not blank, and the other
lexemes stand behind it. -/
theorem strays_of_unexpected {place : Place} {c : Char}
    (isFault : place.lexeme.reading = .fault .unexpectedCharacter)
    (text_eq : place.lexeme.text = String.utf8EncodeChar c) :
    strays (place.lexeme :: place.next.lexemes) [(place.lexeme.start, c)] =
      [(place.lexeme.start, c)] := by
  have more := more_of_fault isFault
  obtain ⟨byte, rest, cons_eq, notBlank⟩ :=
    exists_lexeme_text_eq_cons (noRemark_of_fault isFault) more
  have shape := Utf8.characterBytes c
  rw [← text_eq, cons_eq] at shape
  have outside : IsOutside (place.lexeme :: place.next.lexemes) place.lexeme.start := by
    rw [IsOutside, List.forall_mem_cons]
    constructor
    · exact fun other => absurd isFault other
    · intro later member _ inside
      have behind : place.lexeme.stop ≤ later.start := offset_le_of_mem_lexemes member
      rw [Lexeme.stop, cons_eq, List.length_cons] at behind
      omega
  apply List.filter_cons_of_pos
  rw [← shape.isBlank_eq, notBlank, decide_eq_true outside]
  rfl

/-- The unexpected characters among the lexemes of a place are the stray characters
of the text there. -/
theorem map_unexpected_lexemes {place : Place} {chars : List Char}
    (rest_eq : place.rest = encodeChars chars) :
    (unexpected place.lexemes).map (fun lexeme => (lexeme.start, lexeme.text)) =
      (strays place.lexemes (placed place.offset chars)).map
        fun character => (character.1, String.utf8EncodeChar character.2) := by
  induction place using lexemes.induct generalizing chars with
  | case1 place isEnd =>
      have blank := (isBlank_of_endOfText isEnd).2
      rw [rest_eq] at blank
      rw [lexemes_of_endOfText isEnd, strays_of_blank [] place.offset blank]
      rfl
  | case2 place more ih =>
      obtain ⟨skipped, covered, later, rfl, gap_eq, text_eq, next_eq⟩ := exists_characters rest_eq
      have blank : ∀ byte ∈ encodeChars skipped, isBlank byte = true := by
        rw [← gap_eq]
        exact fun _ => isBlank_of_mem_take_blanks
      have start_eq : place.offset + (encodeChars skipped).length = place.lexeme.start := by
        rw [← gap_eq, List.length_take_of_le place.blanks_le]
        rfl
      have stop_eq : place.lexeme.start + (encodeChars covered).length = place.next.offset := by
        rw [← text_eq]
        rfl
      rw [lexemes_of_more more, placed_append, placed_append, start_eq, stop_eq, strays_append,
        strays_append, strays_of_blank _ _ blank, List.nil_append]
      have behind : strays (place.lexeme :: place.next.lexemes) (placed place.next.offset later) =
          strays place.next.lexemes (placed place.next.offset later) :=
        strays_cons fun character member => (bounds_of_mem_placed member).1
      rw [behind, List.map_append, ← ih next_eq]
      by_cases isFault : place.lexeme.reading = .fault .unexpectedCharacter
      · obtain ⟨c, rfl⟩ := exists_character_of_unexpected isFault text_eq
        rw [Utf8.encodeChars_singleton] at text_eq
        rw [unexpected, List.filter_cons_of_pos (by simpa using isFault), placed, placed,
          strays_of_unexpected isFault text_eq, List.map_cons, text_eq]
        rfl
      · rw [unexpected, List.filter_cons_of_neg (by simpa using isFault),
          strays_of_covered List.mem_cons_self isFault text_eq]
        rfl

end Place

end MinBasic.Lexical
