/-!
# JSON string literals

Between its quotes a literal is a row of *pieces*: a character that stands for itself or is named by
a short escape, or a 16-bit unit given by four hexadecimal digits. Two units that form a surrogate
pair are one character, and a unit outside the surrogates is a character of its own. A surrogate
left alone denotes nothing, and a literal with one has no text.

`escape` writes a text with the fewest escapes: the quote, the backslash and the controls below
U+0020; all else stands for itself.
-/

namespace SimTerm.Json

/-- A piece of a string literal. -/
inductive Piece where
  /-- A character, written as itself or by a short escape. -/
  | char (c : Char)
  /-- A unit written by four hexadecimal digits. -/
  | unit (u : Nat)
deriving DecidableEq, Repr

/-- The first half of a surrogate pair. -/
def isHighSurrogate (u : Nat) : Bool :=
  0xD800 ≤ u && u ≤ 0xDBFF

/-- The second half of a surrogate pair. -/
def isLowSurrogate (u : Nat) : Bool :=
  0xDC00 ≤ u && u ≤ 0xDFFF

/-- The text of a literal; a surrogate that is not half of a pair has none. -/
def textOf? : List Piece → Option (List Char)
  | [] => some []
  | .char c :: ps => (textOf? ps).map (c :: ·)
  | .unit u :: ps =>
    if isHighSurrogate u then
      match ps with
      | .unit v :: qs =>
        if isLowSurrogate v then
          (textOf? qs).map (Char.ofNat (0x10000 + (u - 0xD800) * 0x400 + (v - 0xDC00)) :: ·)
        else none
      | _ => none
    else if isLowSurrogate u then none
    else (textOf? ps).map (Char.ofNat u :: ·)

/-- The value of a hexadecimal digit. -/
def hexValue? (c : Char) : Option Nat :=
  if '0' ≤ c && c ≤ '9' then some (c.toNat - '0'.toNat)
  else if 'a' ≤ c && c ≤ 'f' then some (c.toNat - 'a'.toNat + 10)
  else if 'A' ≤ c && c ≤ 'F' then some (c.toNat - 'A'.toNat + 10)
  else none

/-- The character that a short escape names. -/
def shortEscape? : Char → Option Char
  | '"' => some '"'
  | '\\' => some '\\'
  | '/' => some '/'
  | 'b' => some '\x08'
  | 'f' => some '\x0c'
  | 'n' => some '\n'
  | 'r' => some '\r'
  | 't' => some '\t'
  | _ => none

/-- How a character is written inside a literal. -/
def escapeChar (c : Char) : List Char :=
  match c with
  | '"' => ['\\', '"']
  | '\\' => ['\\', '\\']
  | '\x08' => ['\\', 'b']
  | '\x0c' => ['\\', 'f']
  | '\n' => ['\\', 'n']
  | '\r' => ['\\', 'r']
  | '\t' => ['\\', 't']
  | c =>
    if c.toNat < 0x20 then
      ['\\', 'u', '0', '0', Nat.digitChar (c.toNat / 16), Nat.digitChar (c.toNat % 16)]
    else [c]

/-- A text as it stands between the quotes of a literal. -/
def escape (cs : List Char) : List Char :=
  cs.flatMap escapeChar

/-- A text as a literal. -/
def quoted (cs : List Char) : List Char :=
  '"' :: escape cs ++ ['"']

end SimTerm.Json
