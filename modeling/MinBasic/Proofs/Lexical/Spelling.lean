import MinBasic.Lexical.Recognition
import MinBasic.Proofs.Lexical.NumeralGrammar
import MinBasic.Proofs.Lexical.Word

/-!
# How readings are spelled

The lexical rules of a statement, one for each way to spell a reading.  A rule
relates a reading to the bytes that it covers and to the text after them, in
terms of longest prefixes and of what may follow; it does not say how a scan
finds them.  Every text has a spelling at its start, and the rules leave nothing
open: they hold of a reading and its bytes exactly when `Recognition.statement`
gives that reading with that length.
-/

namespace MinBasic.Lexical

open Computability Text Text.Ascii

/-! ## The rules -/

/-- The bytes that are tokens by themselves wherever they stand. -/
def symbols : Bytes :=
  Utf8.encode "+-*/^()=,;"

/-- The comparisons of two bytes. -/
def operators : List (Bytes × Terminal) :=
  [(Utf8.encode "<=", .lessEqual), (Utf8.encode "<>", .notEqual),
    (Utf8.encode ">=", .greaterEqual)]

/-- The bytes that start a comparison. -/
def comparisons : Bytes :=
  Utf8.encode "<>"

/-- A digit, or a point and a digit, opens a text. -/
def OpensNumeral (text : Bytes) : Prop :=
  ∃ digit rest, isDigit digit = true ∧ (text = digit :: rest ∨ text = point :: digit :: rest)

/-- How a reading of a statement is spelled: the reading, the bytes that it
covers, and the text after them.  The text starts with no blank, and `isFirst`
says whether nothing was read before it. -/
inductive Spelling (isFirst : Bool) : Reading → (taken after : Bytes) → Prop where
  | nothing : Spelling isFirst .endOfText [] []
  | symbol {byte : UInt8} {after : Bytes} (isSymbol : byte ∈ symbols) :
      Spelling isFirst (.char byte) [byte] after
  | operator {taken after : Bytes} {symbol : Terminal} (isOperator : (taken, symbol) ∈ operators) :
      Spelling isFirst (.terminal symbol) taken after
  | comparison {byte : UInt8} {after : Bytes} (isComparison : byte ∈ comparisons)
      (alone : ∀ next ∈ after.head?, ∀ symbol, ([byte, next], symbol) ∉ operators) :
      Spelling isFirst (.char byte) [byte] after
  | closedString {body after : Bytes} (inside : quote ∉ body ∧ newline ∉ body) :
      Spelling isFirst (.terminal .quotedString) (quote :: (body ++ [quote])) after
  | openString {rest : Bytes}
      (unclosed : ∀ body after, rest = body ++ quote :: after → newline ∈ body) :
      Spelling isFirst (.fault .unterminatedString) (quote :: rest) []
  | numeral {taken after : Bytes} (opens : OpensNumeral (taken ++ after))
      (longest : IsLongestPrefix Grammar.numeral (taken ++ after) taken) :
      Spelling isFirst
        (.terminal (if isFirst && taken.all isDigit then .lineNumber else .numConstant))
        taken after
  | keyword {word after : Bytes} {keyword : Terminal}
      (longest : IsLongestPrefix (ofClass isLetter)∗ (word ++ after) word)
      (isKeyword : keyword ∈ Terminal.keywords) (spells : Spells word keyword.name) :
      Spelling isFirst (.terminal keyword) word after
  | identifier {letter : UInt8} {after : Bytes}
      (longest : IsLongestPrefix (ofClass isLetter)∗ ([letter] ++ after) [letter])
      (noDigit : ∀ next ∈ after.head?, isDigit next = false) :
      Spelling isFirst (.terminal .numIdentifier) [letter] after
  | numberedIdentifier {letter digit : UInt8} {after : Bytes} (isLetter : isLetter letter = true)
      (isDigit : isDigit digit = true) :
      Spelling isFirst (.terminal .numIdentifier) [letter, digit] after
  | unrecognized {word after : Bytes}
      (longest : IsLongestPrefix (ofClass isLetter)∗ (word ++ after) word)
      (isLong : 1 < word.length)
      (unknown : ∀ keyword ∈ Terminal.keywords, ¬ Spells word keyword.name) :
      Spelling isFirst (.fault .unrecognizedWord) word after
  | unexpected {byte : UInt8} {trail after : Bytes}
      (noSymbol : byte ∉ symbols) (noComparison : byte ∉ comparisons) (noQuote : byte ≠ quote)
      (noNumeral : ¬ OpensNumeral (byte :: (trail ++ after))) (noLetter : isLetter byte = false)
      (longest : if 0xC0 ≤ byte then
          IsLongestPrefix (ofClass fun next => 0x80 ≤ next && next < 0xC0)∗ (trail ++ after) trail
        else trail = []) :
      Spelling isFirst (.fault .unexpectedCharacter) (byte :: trail) after

/-! ## The scan takes what a rule spells -/

namespace Recognition

variable {isFirst : Bool} {byte : UInt8} {rest : Bytes}

theorem isSymbol_iff : isSymbol byte = true ↔ byte ∈ symbols := by
  have bytes : symbols = [0x2B, 0x2D, 0x2A, 0x2F, 0x5E, 0x28, 0x29, 0x3D, 0x2C, 0x3B] := rfl
  simp [isSymbol, bytes, or_assoc]

theorem mem_comparisons_iff : byte ∈ comparisons ↔ byte = 0x3C ∨ byte = 0x3E := by
  have bytes : comparisons = [0x3C, 0x3E] := rfl
  simp [bytes]

theorem isComparison_iff : isComparison byte = true ↔ byte ∈ comparisons := by
  simp [isComparison, mem_comparisons_iff]

theorem operator?_eq_some_iff {symbol : Terminal} :
    operator? byte rest = some symbol ↔
      ∃ next after, rest = next :: after ∧ ([byte, next], symbol) ∈ operators := by
  have pairs : operators =
      [([0x3C, 0x3D], .lessEqual), ([0x3C, 0x3E], .notEqual), ([0x3E, 0x3D], .greaterEqual)] :=
    rfl
  cases rest with
  | nil => simp [operator?]
  | cons next after =>
      rw [operator?, pairs]
      constructor
      · intro found
        refine ⟨next, after, rfl, ?_⟩
        split_ifs at found with lessEqual notEqual greaterEqual <;>
          obtain rfl := Option.some.inj found
        · simp [lessEqual]
        · simp [notEqual]
        · simp [greaterEqual]
      · rintro ⟨next, after, same, isOperator⟩
        obtain ⟨rfl, rfl⟩ := List.cons.inj same
        simp only [List.mem_cons, Prod.mk.injEq, List.cons.injEq, and_true, List.not_mem_nil,
          or_false] at isOperator
        rcases isOperator with ⟨⟨rfl, rfl⟩, rfl⟩ | ⟨⟨rfl, rfl⟩, rfl⟩ | ⟨⟨rfl, rfl⟩, rfl⟩ <;> rfl

theorem exists_of_mem_operators {taken : Bytes} {symbol : Terminal}
    (isOperator : (taken, symbol) ∈ operators) :
    ∃ byte next, byte ∈ comparisons ∧ taken = [byte, next] := by
  have taken_mem : taken ∈ operators.map Prod.fst := List.mem_map_of_mem isOperator
  simp only [operators, List.map_cons, List.map_nil, List.mem_cons, List.not_mem_nil,
    or_false] at taken_mem
  rcases taken_mem with rfl | rfl | rfl
  · exact ⟨0x3C, 0x3D, by decide, rfl⟩
  · exact ⟨0x3C, 0x3E, by decide, rfl⟩
  · exact ⟨0x3E, 0x3D, by decide, rfl⟩

/-! The first byte decides which rule applies. -/

theorem statement_of_symbol (isSymbol : byte ∈ symbols) :
    statement isFirst (byte :: rest) = ⟨.char byte, 1⟩ := by
  rw [statement, if_pos (isSymbol_iff.mpr isSymbol)]

theorem statement_of_comparison (isComparison : byte ∈ comparisons) :
    statement isFirst (byte :: rest) = comparison byte rest := by
  rcases mem_comparisons_iff.mp isComparison with rfl | rfl <;> rfl

theorem statement_of_quote : statement isFirst (quote :: rest) = quoted rest :=
  rfl

private theorem apart_of_isDigit (digit : isDigit byte = true) :
    isSymbol byte = false ∧ isComparison byte = false ∧ byte ≠ quote := by
  simp only [isDigit, isSymbol, isComparison, quote, Bool.and_eq_true, decide_eq_true_eq,
    Bool.or_eq_false_iff, decide_eq_false_iff_not, ne_eq, UInt8.le_iff_toNat_le,
    ← UInt8.toNat_inj, UInt8.reduceToNat] at *
  omega

private theorem apart_of_isLetter (letter : isLetter byte = true) :
    isSymbol byte = false ∧ isComparison byte = false ∧ byte ≠ quote ∧ byte ≠ point ∧
      isDigit byte = false := by
  simp only [isLetter, isUpper, isLower, isDigit, isSymbol, isComparison, quote, point,
    Bool.and_eq_true, Bool.or_eq_true, decide_eq_true_eq, Bool.or_eq_false_iff,
    Bool.and_eq_false_iff, decide_eq_false_iff_not, ne_eq, UInt8.le_iff_toNat_le,
    ← UInt8.toNat_inj, UInt8.reduceToNat] at *
  omega

theorem statement_of_opensNumeral {text : Bytes} (opens : OpensNumeral text) :
    statement isFirst text = numeral isFirst text := by
  have started : Numeral.starts text = true := Numeral.starts_iff.mpr opens
  obtain ⟨digit, rest, isDigit, rfl | rfl⟩ := opens
  · obtain ⟨noSymbol, noComparison, noQuote⟩ := apart_of_isDigit isDigit
    rw [statement, if_neg (by simp [noSymbol]), if_neg (by simp [noComparison]), if_neg noQuote,
      if_pos started]
  · rw [statement, if_neg (by decide), if_neg (by decide), if_neg (by decide), if_pos started]

theorem statement_of_letter (letter : isLetter byte = true) :
    statement isFirst (byte :: rest) = word (byte :: rest) := by
  obtain ⟨noSymbol, noComparison, noQuote, noPoint, noDigit⟩ := apart_of_isLetter letter
  have noNumeral : ¬ Numeral.starts (byte :: rest) = true := by
    simp [Numeral.starts, noDigit, noPoint]
  rw [statement, if_neg (by simp [noSymbol]), if_neg (by simp [noComparison]), if_neg noQuote,
    if_neg noNumeral, if_pos letter]

theorem statement_of_letters {letters after : Bytes} (nonempty : letters ≠ [])
    (longest : IsLongestPrefix (ofClass isLetter)∗ (letters ++ after) letters) :
    statement isFirst (letters ++ after) = word (letters ++ after) := by
  cases letters with
  | nil => contradiction
  | cons letter letters =>
      have isLetter := mem_kstar_ofClass_iff.mp longest.mem letter List.mem_cons_self
      exact statement_of_letter isLetter

theorem statement_of_other (noSymbol : byte ∉ symbols) (noComparison : byte ∉ comparisons)
    (noQuote : byte ≠ quote) (noNumeral : ¬ OpensNumeral (byte :: rest))
    (noLetter : isLetter byte = false) :
    statement isFirst (byte :: rest) = unexpected byte rest := by
  rw [statement, if_neg (mt isSymbol_iff.mp noSymbol),
    if_neg (mt isComparison_iff.mp noComparison), if_neg noQuote,
    if_neg (mt Numeral.starts_iff.mp noNumeral), if_neg (by simp [noLetter])]

/-! Each recognition against the rules that it serves. -/

variable {after : Bytes}

theorem comparison_of_operator {next : UInt8} {symbol : Terminal}
    (isOperator : ([byte, next], symbol) ∈ operators) :
    comparison byte (next :: after) = ⟨.terminal symbol, 2⟩ := by
  rw [comparison, operator?_eq_some_iff.mpr ⟨next, after, rfl, isOperator⟩]

theorem comparison_of_alone
    (alone : ∀ next ∈ after.head?, ∀ symbol, ([byte, next], symbol) ∉ operators) :
    comparison byte after = ⟨.char byte, 1⟩ := by
  have noOperator : operator? byte after = none := by
    rw [Option.eq_none_iff_forall_ne_some]
    intro symbol found
    obtain ⟨next, after, rfl, isOperator⟩ := operator?_eq_some_iff.mp found
    exact alone next rfl symbol isOperator
  rw [comparison, noOperator]

theorem isQuotable_iff : isQuotable byte = true ↔ byte ≠ quote ∧ byte ≠ newline := by
  simp [isQuotable]

theorem quoted_of_closed {body : Bytes} (inside : quote ∉ body ∧ newline ∉ body) :
    quoted (body ++ quote :: after) = ⟨.terminal .quotedString, body.length + 2⟩ := by
  have isLongest : IsLongestPrefix (ofClass isQuotable)∗ (body ++ quote :: after) body := by
    apply IsLongestPrefix.kstar_iff.mpr
    constructor
    · intro byte member
      apply isQuotable_iff.mpr
      constructor
      · rintro rfl
        exact inside.1 member
      · rintro rfl
        exact inside.2 member
    · simp [isQuotable]
  simp [quoted, ← isLongest.eq_takeWhile]

theorem quoted_of_unclosed
    (unclosed : ∀ body after, rest = body ++ quote :: after → newline ∈ body) :
    quoted rest = ⟨.fault .unterminatedString, rest.length + 1⟩ := by
  have notClosed :
      ¬ (rest.drop (rest.takeWhile isQuotable).length).head? = some quote := by
    intro closed
    obtain ⟨after, dropped⟩ := List.head?_eq_some_iff.mp closed
    have split : rest = rest.takeWhile isQuotable ++ quote :: after := by
      rw [← dropped]
      exact (List.prefix_iff_eq_append.mp (List.takeWhile_prefix isQuotable)).symm
    have broken := List.mem_takeWhile_imp (unclosed _ _ split)
    exact (isQuotable_iff.mp broken).2 rfl
  simp only [quoted, if_neg notClosed]

theorem numeral_of_longest {taken : Bytes} (opens : OpensNumeral (taken ++ after))
    (longest : IsLongestPrefix Grammar.numeral (taken ++ after) taken) :
    numeral isFirst (taken ++ after) =
      ⟨.terminal (if isFirst && taken.all isDigit then .lineNumber else .numConstant),
        taken.length⟩ := by
  have isTaken : taken = (taken ++ after).take (Numeral.length (taken ++ after)) :=
    longest.unique (Numeral.isLongestPrefix_numeral (Numeral.starts_iff.mpr opens))
  have sameLength : Numeral.length (taken ++ after) = taken.length := by
    have := congrArg List.length isTaken
    rw [List.length_take_of_le (Numeral.length_le _)] at this
    exact this.symm
  have whole : Numeral.isWhole (taken ++ after) = taken.all isDigit := by
    rw [Bool.eq_iff_iff, Numeral.isWhole_iff, ← isTaken, List.all_eq_true]
  rw [numeral, whole, sameLength]

theorem word_of_keyword {letters : Bytes} {keyword : Terminal}
    (longest : IsLongestPrefix (ofClass isLetter)∗ (letters ++ after) letters)
    (isKeyword : keyword ∈ Terminal.keywords) (spells : Spells letters keyword.name) :
    word (letters ++ after) = ⟨.terminal keyword, letters.length⟩ := by
  have found := ofSpelling?_eq_some_iff_spells.mpr ⟨isKeyword, spells⟩
  simp only [word, ← longest.eq_takeWhile, found]

theorem word_of_unknown {letters : Bytes}
    (longest : IsLongestPrefix (ofClass isLetter)∗ (letters ++ after) letters)
    (unknown : ∀ keyword ∈ Terminal.keywords, ¬ Spells letters keyword.name) :
    word (letters ++ after) =
      if letters.length = 1 then
        ⟨.terminal .numIdentifier, 1 + digitLength ((letters ++ after).drop 1)⟩
      else
        ⟨.fault .unrecognizedWord, letters.length⟩ := by
  have notFound : Terminal.ofSpelling? (letters.map toChar) = none := by
    rw [Option.eq_none_iff_forall_ne_some]
    intro keyword found
    obtain ⟨isKeyword, spells⟩ := ofSpelling?_eq_some_iff_spells.mp found
    exact unknown keyword isKeyword spells
  simp only [word, ← longest.eq_takeWhile, notFound]

theorem word_of_letter {letter : UInt8}
    (longest : IsLongestPrefix (ofClass isLetter)∗ ([letter] ++ after) [letter]) :
    word (letter :: after) = ⟨.terminal .numIdentifier, 1 + digitLength after⟩ := by
  apply word_of_unknown longest
  intro keyword isKeyword spells
  exact absurd (spells.two_le_length isKeyword) (Nat.not_succ_le_self 1)

theorem digitLength_eq_zero (noDigit : ∀ next ∈ after.head?, isDigit next = false) :
    digitLength after = 0 := by
  cases after with
  | nil => rfl
  | cons next after => simp [digitLength, noDigit next rfl]

theorem unexpected_of_longest {trail : Bytes}
    (longest : if 0xC0 ≤ byte then
        IsLongestPrefix (ofClass fun next => 0x80 ≤ next && next < 0xC0)∗ (trail ++ after) trail
      else trail = []) :
    unexpected byte (trail ++ after) = ⟨.fault .unexpectedCharacter, 1 + trail.length⟩ := by
  split at longest
  · rename_i lead
    have taken : trail = (trail ++ after).takeWhile Utf8.isContinuation := longest.eq_takeWhile
    simp only [unexpected, Utf8.isLead, decide_eq_true lead, if_true, ← taken]
  · rename_i noLead
    rw [longest]
    simp [unexpected, Utf8.isLead, noLead]

end Recognition

/-- A rule that spells a reading is what the scan recognises. -/
theorem Spelling.statement_eq {isFirst : Bool} {reading : Reading} {taken after : Bytes}
    (spelling : Spelling isFirst reading taken after) :
    Recognition.statement isFirst (taken ++ after) = ⟨reading, taken.length⟩ := by
  open Recognition in
  cases spelling with
  | nothing => rfl
  | symbol isSymbol => exact statement_of_symbol isSymbol
  | operator isOperator =>
      obtain ⟨byte, next, isComparison, rfl⟩ := exists_of_mem_operators isOperator
      exact (statement_of_comparison isComparison).trans (comparison_of_operator isOperator)
  | comparison isComparison alone =>
      exact (statement_of_comparison isComparison).trans (comparison_of_alone alone)
  | closedString inside =>
      rw [List.cons_append, statement_of_quote, List.append_assoc]
      simpa using quoted_of_closed inside
  | openString unclosed =>
      rw [List.append_nil, statement_of_quote, quoted_of_unclosed unclosed, List.length_cons]
  | numeral opens longest =>
      rw [statement_of_opensNumeral opens, numeral_of_longest opens longest]
  | keyword longest isKeyword spells =>
      have isLong := spells.two_le_length isKeyword
      rw [statement_of_letters (List.length_pos_iff.mp (by omega)) longest,
        word_of_keyword longest isKeyword spells]
  | identifier longest noDigit =>
      rw [statement_of_letters (by simp) longest]
      exact (word_of_letter longest).trans (by rw [digitLength_eq_zero noDigit]; rfl)
  | @numberedIdentifier letter digit after isLetter isDigit =>
      have longest : IsLongestPrefix (ofClass Ascii.isLetter)∗ ([letter] ++ digit :: after)
          [letter] := by
        have noLetter : Ascii.isLetter digit = false := by
          cases both : Ascii.isLetter digit with
          | false => rfl
          | true =>
              have noDigit := (apart_of_isLetter both).2.2.2.2
              rw [isDigit] at noDigit
              contradiction
        exact IsLongestPrefix.kstar_iff.mpr ⟨by simpa using isLetter, by simpa using noLetter⟩
      exact (statement_of_letter isLetter).trans
        ((word_of_letter longest).trans (by simp [digitLength, isDigit]))
  | unrecognized longest isLong unknown =>
      rw [statement_of_letters (List.length_pos_iff.mp (by omega)) longest,
        word_of_unknown longest unknown, if_neg (by omega)]
  | unexpected noSymbol noComparison noQuote noNumeral noLetter longest =>
      rw [List.cons_append,
        statement_of_other noSymbol noComparison noQuote noNumeral noLetter,
        unexpected_of_longest longest, List.length_cons, Nat.add_comm]

/-! ## A rule for every text -/

/-- A text has a spelling at its start. -/
def IsSpelled (isFirst : Bool) (text : Bytes) : Prop :=
  ∃ reading taken after, text = taken ++ after ∧ Spelling isFirst reading taken after

namespace IsSpelled

variable {isFirst : Bool} {byte : UInt8} {rest : Bytes}

theorem of_comparison (isComparison : byte ∈ comparisons) : IsSpelled isFirst (byte :: rest) := by
  by_cases alone : ∀ next ∈ rest.head?, ∀ symbol, ([byte, next], symbol) ∉ operators
  · exact ⟨_, [byte], rest, rfl, .comparison isComparison alone⟩
  · push Not at alone
    obtain ⟨next, isNext, symbol, isOperator⟩ := alone
    obtain ⟨after, rfl⟩ := List.head?_eq_some_iff.mp (Option.mem_def.mp isNext)
    exact ⟨_, [byte, next], after, rfl, .operator isOperator⟩

theorem of_quote : IsSpelled isFirst (quote :: rest) := by
  by_cases unclosed : ∀ body after, rest = body ++ quote :: after → newline ∈ body
  · exact ⟨_, quote :: rest, [], (List.append_nil _).symm, .openString unclosed⟩
  · push Not at unclosed
    obtain ⟨body, after, rfl, noNewline⟩ := unclosed
    -- Other quotes may stand before this one; the string ends at the first.
    obtain ⟨inside, between, split, noQuote⟩ :=
      List.eq_append_cons_of_mem (show quote ∈ body ++ [quote] by simp)
    have noNewline' : newline ∉ inside := by
      intro member
      have inBody : newline ∈ body ++ [quote] := split ▸ List.mem_append_left _ member
      rcases List.mem_append.mp inBody with inBody | isQuote
      · exact noNewline inBody
      · exact absurd (List.mem_singleton.mp isQuote) (by decide)
    have joined : body ++ quote :: after = inside ++ quote :: (between ++ after) := by
      simpa using congrArg (· ++ after) split
    rw [joined]
    exact ⟨_, quote :: (inside ++ [quote]), between ++ after, by simp,
      .closedString ⟨noQuote, noNewline'⟩⟩

theorem of_opensNumeral {text : Bytes} (opens : OpensNumeral text) : IsSpelled isFirst text := by
  have longest := Numeral.isLongestPrefix_numeral (Numeral.starts_iff.mpr opens)
  have split := List.take_append_drop (Numeral.length text) text
  have longest' : IsLongestPrefix Grammar.numeral
      (text.take (Numeral.length text) ++ text.drop (Numeral.length text))
      (text.take (Numeral.length text)) := by
    rwa [split]
  rw [← split] at opens
  exact ⟨_, _, _, split.symm, .numeral opens longest'⟩

theorem of_letter (letter : isLetter byte = true) : IsSpelled isFirst (byte :: rest) := by
  have split : byte :: rest = (byte :: rest.takeWhile isLetter) ++ rest.dropWhile isLetter := by
    rw [List.cons_append, List.takeWhile_append_dropWhile]
  have longest : IsLongestPrefix (ofClass isLetter)∗
      ((byte :: rest.takeWhile isLetter) ++ rest.dropWhile isLetter)
      (byte :: rest.takeWhile isLetter) := by
    have isLongest := IsLongestPrefix.takeWhile_append_dropWhile isLetter (byte :: rest)
    rwa [List.takeWhile_cons_of_pos letter, List.dropWhile_cons_of_pos letter] at isLongest
  by_cases known :
      ∃ keyword ∈ Terminal.keywords, Spells (byte :: rest.takeWhile isLetter) keyword.name
  · obtain ⟨keyword, isKeyword, spells⟩ := known
    exact ⟨_, _, _, split, .keyword longest isKeyword spells⟩
  · push Not at known
    cases others : rest.takeWhile isLetter with
    | cons next word =>
        rw [others] at split longest known
        exact ⟨_, _, _, split, .unrecognized longest (by simp) known⟩
    | nil =>
        rw [others] at split longest
        by_cases noDigit : ∀ next ∈ (rest.dropWhile isLetter).head?, isDigit next = false
        · exact ⟨_, _, _, split, .identifier longest noDigit⟩
        · push Not at noDigit
          obtain ⟨digit, isNext, isDigit⟩ := noDigit
          obtain ⟨after, dropped⟩ := List.head?_eq_some_iff.mp (Option.mem_def.mp isNext)
          rw [dropped] at split
          exact ⟨_, [byte, digit], after, split,
            .numberedIdentifier letter (Bool.not_eq_false _ ▸ isDigit)⟩

theorem of_other (noSymbol : byte ∉ symbols) (noComparison : byte ∉ comparisons)
    (noQuote : byte ≠ quote) (noNumeral : ¬ OpensNumeral (byte :: rest))
    (noLetter : isLetter byte = false) : IsSpelled isFirst (byte :: rest) := by
  by_cases lead : 0xC0 ≤ byte
  · have split := List.takeWhile_append_dropWhile (p := Utf8.isContinuation) (l := rest)
    have longest := IsLongestPrefix.takeWhile_append_dropWhile Utf8.isContinuation rest
    rw [← split] at noNumeral
    exact ⟨_, byte :: rest.takeWhile Utf8.isContinuation, rest.dropWhile Utf8.isContinuation,
      by rw [List.cons_append, split],
      .unexpected noSymbol noComparison noQuote noNumeral noLetter ((if_pos lead).mpr longest)⟩
  · exact ⟨_, [byte], rest, rfl,
      .unexpected noSymbol noComparison noQuote noNumeral noLetter ((if_neg lead).mpr rfl)⟩

end IsSpelled

/-- Every text has a spelling at its start. -/
theorem isSpelled (isFirst : Bool) (text : Bytes) : IsSpelled isFirst text := by
  cases text with
  | nil => exact ⟨_, [], [], rfl, .nothing⟩
  | cons byte rest =>
      by_cases isSymbol : byte ∈ symbols
      · exact ⟨_, [byte], rest, rfl, .symbol isSymbol⟩
      by_cases isComparison : byte ∈ comparisons
      · exact .of_comparison isComparison
      by_cases isQuote : byte = quote
      · exact isQuote ▸ .of_quote
      by_cases opens : OpensNumeral (byte :: rest)
      · exact .of_opensNumeral opens
      cases letter : isLetter byte with
      | true => exact .of_letter letter
      | false => exact .of_other isSymbol isComparison isQuote opens letter

/-- The rules spell exactly what the scan recognises. -/
theorem spelling_iff {isFirst : Bool} {reading : Reading} {taken after : Bytes} :
    Spelling isFirst reading taken after ↔
      Recognition.statement isFirst (taken ++ after) = ⟨reading, taken.length⟩ := by
  constructor
  · exact Spelling.statement_eq
  · intro recognised
    obtain ⟨reading', taken', after', split, spelling⟩ := isSpelled isFirst (taken ++ after)
    have same := spelling.statement_eq
    rw [← split, recognised] at same
    obtain ⟨rfl, sameLength⟩ := Recognition.mk.inj same
    obtain ⟨rfl, rfl⟩ := List.append_inj split sameLength
    exact spelling

end MinBasic.Lexical
