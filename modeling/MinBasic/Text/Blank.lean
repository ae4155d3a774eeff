/-!
# Blank characters of Unicode text

The White_Space property of Unicode as a predicate on characters, and the text
between the blanks at both ends.
-/

namespace MinBasic.Text

/-- The 25 characters with the property White_Space. -/
def isBlankChar (c : Char) : Bool :=
  let code := c.toNat
  (0x09 ≤ code && code ≤ 0x0D) || code = 0x20 || code = 0x85 || code = 0xA0 ||
    code = 0x1680 || (0x2000 ≤ code && code ≤ 0x200A) || code = 0x2028 || code = 0x2029 ||
    code = 0x202F || code = 0x205F || code = 0x3000

/-- A text without the blanks at its start. -/
def trimStart (text : List Char) : List Char :=
  text.dropWhile isBlankChar

/-- A text without the blanks at its end. -/
def trimEnd (text : List Char) : List Char :=
  (trimStart text.reverse).reverse

/-- A text without the blanks at its start and its end. -/
def trim (text : List Char) : List Char :=
  trimEnd (trimStart text)

end MinBasic.Text
