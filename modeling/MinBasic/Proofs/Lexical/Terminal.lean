import MinBasic.Proofs.Lexical.Reference
import MinBasic.Proofs.Text.CharCase
import MinBasic.Proofs.Text.LetterCase

/-!
# The tables of the terminal symbols

The order of the terminal symbols, the list of all of them, their names and the table of reserved
words are written down apart.  They agree: a token number leads to the symbol that has it, a text
leads to a keyword exactly when it is the keyword's name in some case, and the scan reads a
keyword only from its name.
-/

namespace MinBasic.Lexical

open Text Text.Ascii

/-! ## Names -/

namespace Terminal

theorem map_toUpper_name_of_mem_keywords :
    ∀ keyword ∈ keywords, keyword.name.toList.map Char.toUpper = keyword.name.toList := by
  decide

/-- The other terminal symbols have names that are in no case those of keywords. -/
theorem map_toUpper_name_ne_of_not_mem_keywords :
    ∀ other ∈ all, other ∉ keywords → ∀ keyword ∈ keywords,
      other.name.toList.map Char.toUpper ≠ keyword.name.toList := by
  decide

variable {word word' : String} {terminal : Terminal}

/-- A text spells a keyword exactly when it is the keyword's name in some case. -/
theorem keyword?_eq_some_iff_sameButCase :
    keyword? word = some terminal ↔
      terminal ∈ keywords ∧ List.Forall₂ SameButCase word.toList terminal.name.toList := by
  rw [keyword?, ofSpelling?_eq_some_iff, ← map_toUpper_eq_map_toUpper_iff]
  apply and_congr_right
  intro isKeyword
  rw [map_toUpper_name_of_mem_keywords terminal isKeyword]
  exact eq_comm

/-- The texts that spell a keyword have one length. -/
theorem length_eq_of_keyword?_eq_some (spells : keyword? word = some terminal) :
    word.length = terminal.name.length := by
  have same := (keyword?_eq_some_iff_sameButCase.mp spells).2
  rw [← String.length_toList, same.length_eq, String.length_toList]

/-- Keywords are spelled in ASCII. -/
theorem ascii_of_keyword?_eq_some (spells : keyword? word = some terminal) :
    ∀ c ∈ word.toList, c.toNat < 128 := by
  obtain ⟨isKeyword, spelled⟩ := ofSpelling?_eq_some_iff.mp spells
  intro c member
  by_contra beyond
  -- A character beyond ASCII is its own capital and would stand in the name.
  have unchanged : c.toUpper = c := by
    have noSmall : ¬ ('a' ≤ c ∧ c ≤ 'z') := by
      intro isSmall
      have within : c.toNat ≤ 122 := le_iff_toNat_le.mp isSmall.2
      omega
    rw [← Char.toNat_inj, toNat_toUpper, if_neg noSmall]
  have inName : c ∈ terminal.name.toList := by
    rw [spelled]
    exact List.mem_map.mpr ⟨c, member, unchanged⟩
  have isCapital := isUpper_of_mem_name_of_mem_keywords terminal isKeyword c inName
  have within : c.toNat ≤ 90 := le_iff_toNat_le.mp (isUpper_iff.mp isCapital).2
  omega

/-- The name of a terminal symbol that is no keyword spells no keyword in any case. -/
theorem keyword?_ne_some_of_name {other : Terminal} (noKeyword : other ∉ keywords)
    (same : List.Forall₂ SameButCase word.toList other.name.toList) :
    keyword? word ≠ some terminal := by
  intro spells
  obtain ⟨isKeyword, spelled⟩ := ofSpelling?_eq_some_iff.mp spells
  rw [map_toUpper_eq_map_toUpper_iff.mpr same] at spelled
  exact map_toUpper_name_ne_of_not_mem_keywords other (mem_all other) noKeyword terminal isKeyword
    spelled.symm

/-- Of two texts that spell keywords one starts with the other only as `GOTO` starts with `GO`. -/
theorem eq_or_go_goto_of_isPrefix {terminal' : Terminal} (within : word.toList <+: word'.toList)
    (spells : keyword? word = some terminal) (spells' : keyword? word' = some terminal') :
    word = word' ∨ terminal = .kwGo ∧ terminal' = .kwGoto := by
  have names_apart : ∀ shorter ∈ keywords, ∀ longer ∈ keywords,
      shorter.name.toList <+: longer.name.toList →
        shorter = longer ∨ shorter = .kwGo ∧ longer = .kwGoto := by
    decide
  obtain ⟨isKeyword, spelled⟩ := ofSpelling?_eq_some_iff.mp spells
  obtain ⟨isKeyword', spelled'⟩ := ofSpelling?_eq_some_iff.mp spells'
  have namesWithin : terminal.name.toList <+: terminal'.name.toList := by
    rw [spelled, spelled']
    exact within.map Char.toUpper
  rcases names_apart terminal isKeyword terminal' isKeyword' namesWithin with rfl | goGoto
  · have sameLength : word.toList.length = word'.toList.length := by
      rw [String.length_toList, String.length_toList, length_eq_of_keyword?_eq_some spells,
        length_eq_of_keyword?_eq_some spells']
    exact Or.inl (String.toList_inj.mp (within.eq_of_length sameLength))
  · exact Or.inr goGoto

/-- The keywords are not free of prefixes: `GO` is one, and so is `GOTO`. -/
theorem keywords_not_prefix_free :
    ¬ ∀ word word' : String, word.toList <+: word'.toList → word ≠ word' →
      keyword? word' ≠ none → keyword? word = none := by
  intro apart
  have noGo : keyword? "GO" = none :=
    apart "GO" "GOTO" (by decide) (by decide) (by decide)
  exact absurd noGo (by decide)

end Terminal

/-! ## The scan -/

/-- A run of letters that spells a name in capitals is that name in upper case. -/
theorem upperCase_eq_encode_of_spells {word : Bytes} {name : String}
    (letters : ∀ byte ∈ word, isLetter byte = true)
    (capitals : ∀ c ∈ name.toList, c.isUpper = true) (spells : Spells word name) :
    upperCase word = Utf8.encode name := by
  have encoded : ∀ n < 256, isLetter (UInt8.ofNat n) = true →
      String.utf8EncodeChar (toChar (UInt8.ofNat n)).toUpper = [upper (UInt8.ofNat n)] := by
    decide +kernel
  have encoded' : ∀ byte ∈ word, String.utf8EncodeChar (toChar byte).toUpper = [upper byte] := by
    intro byte member
    have here := encoded byte.toNat byte.toNat_lt
    rw [UInt8.ofNat_toNat] at here
    exact here (letters byte member)
  rw [Utf8.encode, (map_toUpper_eq_iff_spells capitals).mpr spells, List.flatMap_map,
    List.flatMap_map, upperCase, List.map_eq_flatMap]
  exact (List.flatMap_congr encoded').symm

/-- A keyword is read from its name. -/
theorem Place.upperCase_text_of_keyword {place : Place} {keyword : Terminal}
    (isKeyword : keyword ∈ Terminal.keywords)
    (isReading : place.lexeme.reading = .terminal keyword) :
    upperCase place.lexeme.text = Utf8.encode keyword.name := by
  have noRemark : place.mode ≠ .remark := by
    intro isRemark
    rw [lexeme_of_remark isRemark] at isReading
    cases isReading
    exact absurd isKeyword (by decide)
  have spelled := spelling_lexeme noRemark
  rw [isReading] at spelled
  -- Among the rules for terminal symbols only one is for keywords.
  have operators_apart : ∀ entry ∈ operators, entry.2 ∉ Terminal.keywords := by decide +kernel
  generalize place.lexeme.text = taken at spelled
  cases spelled with
  | keyword longest isKeyword' spells =>
      exact upperCase_eq_encode_of_spells (IsLongestPrefix.kstar_iff.mp longest).1
        (isUpper_of_mem_name_of_mem_keywords keyword isKeyword) spells
  | operator isOperator => exact absurd isKeyword (operators_apart _ isOperator)
  | closedString inside => exact absurd isKeyword (by decide)
  | numeral opens longest =>
      split at isKeyword
      · exact absurd isKeyword (by decide)
      · exact absurd isKeyword (by decide)
  | identifier longest noDigit => exact absurd isKeyword (by decide)
  | numberedIdentifier isLetter isDigit => exact absurd isKeyword (by decide)

/-! ## All tables -/

/-- The tables of the terminal symbols agree.  A text is looked up as a terminal symbol exactly
when the symbol's number is that of a keyword and the text is its name but for the case of ASCII
letters.  So no keyword is found for a text with a character beyond ASCII or for the name of
another symbol, and no keyword starts with another one but `GOTO` with `GO`.  A token number is
looked up as the symbol that has it.  A keyword that a scan gives covers bytes that are its name
in upper case. -/
theorem tables_agree (terminal : Terminal) :
    (∀ word : String, Terminal.keyword? word = some terminal ↔
      (263 ≤ terminal.code ∧ terminal.code ≤ 277) ∧ word.length = terminal.name.length ∧
        ∀ c d, (c, d) ∈ word.toList.zip terminal.name.toList → SameButCase c d) ∧
    (∀ word : String, (∃ c ∈ word.toList, 128 ≤ c.toNat) →
      Terminal.keyword? word ≠ some terminal) ∧
    (∀ (other : Terminal) (word : String), ¬ (263 ≤ other.code ∧ other.code ≤ 277) →
      List.Forall₂ SameButCase word.toList other.name.toList →
        Terminal.keyword? word ≠ some terminal) ∧
    (∀ (word word' : String) (terminal' : Terminal), word.toList <+: word'.toList →
      Terminal.keyword? word = some terminal → Terminal.keyword? word' = some terminal' →
        word = word' ∨ terminal = .kwGo ∧ terminal' = .kwGoto) ∧
    (∀ number, Terminal.ofCode? number = some terminal ↔ terminal.code = number) ∧
    ∀ (text : Bytes) (count : Nat), ∀ lexeme ∈ (Place.opening text).calls count,
      lexeme.reading = .terminal terminal → 263 ≤ terminal.code ∧ terminal.code ≤ 277 →
        upperCase lexeme.text = Utf8.encode terminal.name := by
  refine ⟨?_, ?_, ?_, ?_, fun number => Terminal.ofCode?_eq_some_iff, ?_⟩
  · intro word
    rw [Terminal.keyword?_eq_some_iff_sameButCase, Terminal.mem_keywords_iff, List.forall₂_iff_zip,
      String.length_toList, String.length_toList]
  · rintro word ⟨c, member, beyond⟩ spells
    exact Nat.not_lt.mpr beyond (Terminal.ascii_of_keyword?_eq_some spells c member)
  · intro other word noKeyword same
    exact Terminal.keyword?_ne_some_of_name (mt Terminal.mem_keywords_iff.mp noKeyword) same
  · intro word word' terminal' within spells spells'
    exact Terminal.eq_or_go_goto_of_isPrefix within spells spells'
  · intro text count lexeme member isReading isKeyword
    obtain ⟨index, here⟩ := List.mem_iff_getElem?.mp member
    obtain ⟨-, rfl⟩ := Place.getElem?_calls.mp here
    exact Place.upperCase_text_of_keyword (Terminal.mem_keywords_iff.mpr isKeyword) isReading

end MinBasic.Lexical
