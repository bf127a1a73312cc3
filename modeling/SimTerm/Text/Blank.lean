/-!
# Blank characters

A character is blank when it has the Unicode property `White_Space`: the ASCII controls from tab to
carriage return, the space, and the handful of spaces and separators outside ASCII. The zero-width
space U+200B, the byte order mark U+FEFF and the information separators U+001C to U+001F do not
have the property.

`trim`, `trimStart` and `trimEnd` remove blank characters at the ends of a text and nothing else.
-/

namespace SimTerm.Text

/-- Membership in the Unicode property `White_Space`. -/
def isBlank (c : Char) : Bool :=
  let n := c.toNat
  (0x9 ≤ n && n ≤ 0xD) || n == 0x20 || n == 0x85 || n == 0xA0 || n == 0x1680 ||
    (0x2000 ≤ n && n ≤ 0x200A) || n == 0x2028 || n == 0x2029 || n == 0x202F || n == 0x205F ||
    n == 0x3000

/-- The text without the blank characters it starts with. -/
def trimStart (cs : List Char) : List Char :=
  cs.dropWhile isBlank

/-- The text without the blank characters it ends with. -/
def trimEnd (cs : List Char) : List Char :=
  (cs.reverse.dropWhile isBlank).reverse

/-- The text without the blank characters at either end. -/
def trim (cs : List Char) : List Char :=
  trimEnd (trimStart cs)

/-- A text that holds blank characters only, the empty text included. -/
def allBlank (cs : List Char) : Bool :=
  cs.all isBlank

end SimTerm.Text
