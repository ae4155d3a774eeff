/-!
# Terminal symbols

The terminal symbols of the Minimal BASIC grammar.  The grammar knows each
symbol by a token number and by a name; numbers under `firstCode` stand for
single characters.  A keyword is spelled like its name, in either case of the
ASCII letters.
-/

namespace MinBasic.Lexical

/-- The terminal symbols, in the order of their token numbers: literals,
keywords, comparison operators, and the precedence marker of the unary minus,
which no text spells. -/
inductive Terminal where
  | numIdentifier
  | numConstant
  | lineNumber
  | remarkString
  | quotedString
  | kwIf
  | kwThen
  | kwFor
  | kwTo
  | kwStep
  | kwNext
  | kwOn
  | kwGoto
  | kwGo
  | kwInput
  | kwPrint
  | kwStop
  | kwEnd
  | kwRem
  | kwLet
  | greaterEqual
  | lessEqual
  | notEqual
  | unaryMinus
  deriving DecidableEq, Repr

namespace Terminal

/-- The token number of the first terminal symbol. -/
def firstCode : Nat := 258

/-- The token number of a terminal symbol. -/
def code (terminal : Terminal) : Nat :=
  firstCode + terminal.ctorIdx

/-- The name of a terminal symbol in the grammar. -/
def name : Terminal → String
  | numIdentifier => "NumIdentifier"
  | numConstant => "NumConstant"
  | lineNumber => "LineNumber"
  | remarkString => "RemarkString"
  | quotedString => "QuotedString"
  | kwIf => "IF"
  | kwThen => "THEN"
  | kwFor => "FOR"
  | kwTo => "TO"
  | kwStep => "STEP"
  | kwNext => "NEXT"
  | kwOn => "ON"
  | kwGoto => "GOTO"
  | kwGo => "GO"
  | kwInput => "INPUT"
  | kwPrint => "PRINT"
  | kwStop => "STOP"
  | kwEnd => "END"
  | kwRem => "REM"
  | kwLet => "LET"
  | greaterEqual => "GE"
  | lessEqual => "LE"
  | notEqual => "NE"
  | unaryMinus => "UMINUS"

/-- The name of a terminal symbol in a trace of the scan. -/
def label : Terminal → String
  | numIdentifier => "NumIdentifier"
  | numConstant => "NumConstant"
  | lineNumber => "LineNumber"
  | remarkString => "RemarkString"
  | quotedString => "QuotedString"
  | kwIf => "If"
  | kwThen => "Then"
  | kwFor => "For"
  | kwTo => "To"
  | kwStep => "Step"
  | kwNext => "Next"
  | kwOn => "On"
  | kwGoto => "Goto"
  | kwGo => "Go"
  | kwInput => "Input"
  | kwPrint => "Print"
  | kwStop => "Stop"
  | kwEnd => "End"
  | kwRem => "Rem"
  | kwLet => "Let"
  | greaterEqual => "GreaterEqual"
  | lessEqual => "LessEqual"
  | notEqual => "NotEqual"
  | unaryMinus => "UnaryMinus"

/-- Every terminal symbol, in the order of the token numbers. -/
def all : List Terminal :=
  [numIdentifier, numConstant, lineNumber, remarkString, quotedString,
    kwIf, kwThen, kwFor, kwTo, kwStep, kwNext, kwOn, kwGoto, kwGo,
    kwInput, kwPrint, kwStop, kwEnd, kwRem, kwLet,
    greaterEqual, lessEqual, notEqual, unaryMinus]

/-- The reserved words, each with the terminal symbol that it spells. -/
def reservedWords : List (String × Terminal) :=
  [("IF", kwIf), ("THEN", kwThen), ("FOR", kwFor), ("TO", kwTo), ("STEP", kwStep),
    ("NEXT", kwNext), ("ON", kwOn), ("GOTO", kwGoto), ("GO", kwGo), ("INPUT", kwInput),
    ("PRINT", kwPrint), ("STOP", kwStop), ("END", kwEnd), ("REM", kwRem), ("LET", kwLet)]

/-- The terminal symbols that are spelled by a reserved word. -/
def keywords : List Terminal :=
  reservedWords.map Prod.snd

/-- The terminal symbol with a given token number, by its place among all of
them. -/
def ofCode? (number : Nat) : Option Terminal :=
  if number < firstCode then none else all[number - firstCode]?

/-- The keyword spelled by a word, in either case of the ASCII letters. -/
def ofSpelling? (word : List Char) : Option Terminal :=
  reservedWords.lookup (.ofList (word.map Char.toUpper))

/-- The keyword that a text spells, in either case of the ASCII letters. -/
def keyword? (word : String) : Option Terminal :=
  ofSpelling? word.toList

theorem mem_all (terminal : Terminal) : terminal ∈ all := by
  cases terminal <;> decide

private theorem code_getElem_all :
    ∀ index : Fin all.length, all[index].code = firstCode + index := by
  decide

/-- The terminal symbols are listed at their token numbers, counted from the
first. -/
theorem getElem?_all_eq_some_iff {index : Nat} {terminal : Terminal} :
    all[index]? = some terminal ↔ terminal.code = firstCode + index := by
  constructor
  · intro found
    obtain ⟨within, rfl⟩ := List.getElem?_eq_some_iff.mp found
    exact code_getElem_all ⟨index, within⟩
  · intro isCode
    obtain rfl : terminal.ctorIdx = index := Nat.add_left_cancel isCode
    cases terminal <;> rfl

/-- Looking up a token number inverts `code`. -/
theorem ofCode?_eq_some_iff {number : Nat} {terminal : Terminal} :
    ofCode? number = some terminal ↔ terminal.code = number := by
  rw [ofCode?]
  split
  · rename_i isLess
    have atLeast : firstCode ≤ terminal.code := Nat.le_add_right _ _
    constructor
    · intro found
      contradiction
    · intro isCode
      omega
  · rename_i notLess
    rw [getElem?_all_eq_some_iff, Nat.add_sub_cancel' (Nat.le_of_not_lt notLess)]

/-- The keywords are exactly the terminals with the numbers 263 to 277. -/
theorem mem_keywords_iff {terminal : Terminal} :
    terminal ∈ keywords ↔ 263 ≤ terminal.code ∧ terminal.code ≤ 277 := by
  cases terminal <;> decide

/-- Every reserved word is the name of the terminal symbol that it spells. -/
theorem name_eq_of_mem_reservedWords : ∀ entry ∈ reservedWords, entry.2.name = entry.1 := by
  decide

private theorem lookup_name_of_mem_keywords :
    ∀ terminal ∈ keywords, reservedWords.lookup terminal.name = some terminal := by
  decide

/-- A word is looked up as the keyword that it names. -/
theorem lookup_reservedWords_eq_some_iff {word : String} {terminal : Terminal} :
    reservedWords.lookup word = some terminal ↔ terminal ∈ keywords ∧ terminal.name = word := by
  constructor
  · intro found
    obtain ⟨before, after, split, -⟩ := List.lookup_eq_some_iff.mp found
    have member : (word, terminal) ∈ reservedWords := split ▸ List.mem_append_cons_self
    exact ⟨List.mem_map_of_mem member, name_eq_of_mem_reservedWords _ member⟩
  · rintro ⟨isKeyword, rfl⟩
    exact lookup_name_of_mem_keywords terminal isKeyword

/-- A word spells a keyword exactly when upper-casing it gives the keyword's
name. -/
theorem ofSpelling?_eq_some_iff {word : List Char} {terminal : Terminal} :
    ofSpelling? word = some terminal ↔
      terminal ∈ keywords ∧ terminal.name.toList = word.map Char.toUpper := by
  rw [ofSpelling?, lookup_reservedWords_eq_some_iff, ← String.toList_inj, String.toList_ofList]

end Terminal

end MinBasic.Lexical
