import MinBasic.Lexical.Terminal
import MinBasic.Text.Ascii

/-!
# Tokens, faults and readings

One step of the scan reads a token, finds a lexical fault, or meets the end of
its text.  A fault is a cause; its wording is given once, by `Fault.message`.
-/

namespace MinBasic.Lexical

/-- A token is a terminal symbol or a single character. -/
inductive Token where
  | terminal (symbol : Terminal)
  | char (byte : UInt8)
  deriving DecidableEq, Repr

/-- A token in a trace of the scan. -/
def Token.label : Token → String
  | terminal symbol => "Terminal(" ++ symbol.label ++ ")"
  | char byte => "Char('" ++ String.singleton (Text.Ascii.toChar byte) ++ "')"

/-- Why a piece of text is no token. -/
inductive Fault where
  | unexpectedCharacter
  | unterminatedString
  | unrecognizedWord
  deriving DecidableEq, Repr

/-- The wording of a fault in a report. -/
def Fault.message : Fault → String
  | unexpectedCharacter => "unexpected character"
  | unterminatedString => "unterminated string"
  | unrecognizedWord => "unrecognized word"

/-- The outcome of one step of the scan. -/
inductive Reading where
  | token (token : Token)
  | fault (fault : Fault)
  | endOfText
  deriving DecidableEq, Repr

namespace Reading

/-- A terminal symbol was read. -/
abbrev terminal (symbol : Terminal) : Reading :=
  token (.terminal symbol)

/-- A single character was read. -/
abbrev char (byte : UInt8) : Reading :=
  token (.char byte)

end Reading

end MinBasic.Lexical
