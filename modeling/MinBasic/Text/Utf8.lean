import MinBasic.Text.Ascii

/-!
# UTF-8

Text leaves the library as its UTF-8 bytes (`encode`).  Bytes from outside are
read by `decode`, which names every character and marks every ill-formed place:
a maximal ill-formed part, that is a leading byte with as many correct
continuation bytes as follow it, is one mark.  `decodeLossy` puts the
replacement character at each mark, and `decode?` refuses the text.
-/

namespace MinBasic.Text.Utf8

/-- A byte that may only continue a multi-byte character. -/
def isContinuation (byte : UInt8) : Bool :=
  0x80 ≤ byte && byte < 0xC0

/-- A byte above all continuation bytes; only such a byte can start a
multi-byte character. -/
def isLead (byte : UInt8) : Bool :=
  0xC0 ≤ byte

/-- The UTF-8 bytes of a text. -/
def encode (text : String) : Bytes :=
  text.toList.flatMap String.utf8EncodeChar

/-- What the first byte of a character announces: its part of the code point,
how many continuation bytes follow, and the bounds of the first of them.  The
bounds exclude overlong forms, surrogates and numbers above `0x10FFFF`. -/
structure Lead where
  payload : Nat
  trail : Nat
  low : UInt8 := 0x80
  high : UInt8 := 0xBF
  deriving DecidableEq, Repr

/-- The announcement of a byte that can start a character. -/
def lead? (byte : UInt8) : Option Lead :=
  if byte < 0x80 then
    some { payload := byte.toNat, trail := 0 }
  else if byte < 0xC2 then
    none
  else if byte < 0xE0 then
    some { payload := byte.toNat - 0xC0, trail := 1 }
  else if byte < 0xF0 then
    some { payload := byte.toNat - 0xE0, trail := 2,
           low := if byte = 0xE0 then 0xA0 else 0x80,
           high := if byte = 0xED then 0x9F else 0xBF }
  else if byte < 0xF5 then
    some { payload := byte.toNat - 0xF0, trail := 3,
           low := if byte = 0xF0 then 0x90 else 0x80,
           high := if byte = 0xF4 then 0x8F else 0xBF }
  else
    none

/-- Read `trail` continuation bytes, the first between `low` and `high`, onto a
code point begun as `value`.  At a byte out of bounds, or at the end, there is
no code point, and reading goes on with that byte. -/
def follow :
    (trail : Nat) → (low high : UInt8) → (value : Nat) → Bytes → Option Nat × Bytes
  | 0, _, _, value, rest => (some value, rest)
  | _ + 1, _, _, _, [] => (none, [])
  | trail + 1, low, high, value, byte :: rest =>
      if low ≤ byte ∧ byte ≤ high then
        follow trail 0x80 0xBF (value * 64 + (byte.toNat - 0x80)) rest
      else
        (none, byte :: rest)

theorem length_follow_le (trail : Nat) (low high : UInt8) (value : Nat) (bytes : Bytes) :
    (follow trail low high value bytes).2.length ≤ bytes.length := by
  induction trail generalizing low high value bytes with
  | zero => simp [follow]
  | succ trail ih =>
      cases bytes with
      | nil => simp [follow]
      | cons byte rest =>
          rw [follow]
          split
          · exact Nat.le_succ_of_le (ih ..)
          · exact Nat.le_refl _

/-- The characters of a byte string, with `none` for each maximal ill-formed
part. -/
def decode : Bytes → List (Option Char)
  | [] => []
  | byte :: rest =>
      match lead? byte with
      | none => none :: decode rest
      | some lead =>
          let read := follow lead.trail lead.low lead.high lead.payload rest
          read.1.map Char.ofNat :: decode read.2
termination_by bytes => bytes.length
decreasing_by
  · simp
  · exact Nat.lt_succ_of_le (length_follow_le ..)

/-- The character that stands for what cannot be decoded, U+FFFD. -/
def replacement : Char :=
  Char.ofNat 0xFFFD

/-- Decode, with the replacement character for each ill-formed part. -/
def decodeLossy (bytes : Bytes) : String :=
  String.ofList ((decode bytes).map (·.getD replacement))

/-- Decode well-formed text, and nothing else. -/
def decode? (bytes : Bytes) : Option String :=
  ((decode bytes).mapM id).map String.ofList

@[simp]
theorem encode_empty : encode "" = [] :=
  rfl

end MinBasic.Text.Utf8
