import SimTerm.Json.Quoted
import SimTerm.Toml.Scan

/-!
# TOML strings

Strings come in four forms: in double quotes with escapes, in single quotes as they are, and each of
these in three quotes over several lines. A line end inside a string is a line feed, however it is
written. In three quotes one or two quotes are text; a longer row ends the string, and up to two
quotes of it still belong to the text.
-/

namespace SimTerm.Toml.Scan

/-- A scalar value, which excludes the surrogates and what lies above the last code point. -/
def isScalar (n : Nat) : Bool :=
  n < 0xD800 || (0xE000 ≤ n && n < 0x110000)

/-- A hexadecimal digit. -/
def isHexDigit (c : Char) : Bool :=
  (Json.hexValue? c).isSome

/-- The value of hexadecimal digits. -/
def hexNumber (cs : List Char) : Nat :=
  cs.foldl (fun n c => 16 * n + (Json.hexValue? c).getD 0) 0

/-- The character with a code point of so many hexadecimal digits. -/
def codePoint (digits : Nat) : Scan Char := do
  let n := hexNumber (← exactly isHexDigit digits)
  check (isScalar n)
  return Char.ofNat n

/-- The character that an escape stands for, behind the backslash. -/
def escaped : Scan Char := do
  match ← satisfy fun _ => true with
  | 'b' => return '\x08'
  | 'f' => return '\x0c'
  | 'n' => return '\n'
  | 'r' => return '\r'
  | 't' => return '\t'
  | '"' => return '"'
  | '\\' => return '\\'
  | 'u' => codePoint 4
  | 'U' => codePoint 8
  | _ => failure

/-- A character between double quotes. -/
def basicRound : Scan (Option Char) := do
  match ← peek? with
  | some '"' => return none
  | some '\\' => do
    char '\\'
    return some (← escaped)
  | _ => return some (← satisfy isText)

/-- A string in double quotes. -/
def basicString : Scan (List Char) := do
  char '"'
  let cs ← repeated basicRound
  char '"'
  return cs

/-- A string in single quotes. -/
def literalString : Scan (List Char) := do
  char '\''
  let cs ← takeWhile fun c => isText c && c != '\''
  char '\''
  return cs

/-- One round of blanks or line ends. -/
def foldRound : Scan (Option Unit) := do
  match ← peek? with
  | some ' ' => return some (← spaces)
  | some '\t' => return some (← spaces)
  | some '\n' => return some (← newline)
  | some '\r' => return some (← newline)
  | _ => return none

/-- A line end with all blanks and line ends that follow it. -/
def foldedLines : Scan Unit := do
  spaces
  newline
  let _ ← repeated foldRound

/-- What follows a backslash in three double quotes: a folded line end, or an escape. -/
def multilineEscape : Scan (List Char) :=
  (do foldedLines; return []) <|> (do return [← escaped])

/-- The next piece of a string in three quotes, up to the row of quotes that ends it. -/
def multilineRound (quote : Char) (escapes : Bool) : Scan (Option (List Char)) := do
  let cs ← get
  match cs with
  | [] => failure
  | '\n' :: rest => do
    set rest
    return some ['\n']
  | '\r' :: _ => do
    newline
    return some ['\n']
  | c :: rest =>
    if c = quote then
      let row := cs.takeWhile (· = quote)
      if row.length < 3 then
        set (cs.drop row.length)
        return some row
      else return none
    else if escapes && c = '\\' then
      set rest
      return some (← multilineEscape)
    else
      let _ ← satisfy isText
      return some [c]

/-- A string in three quotes. -/
def multilineString (quote : Char) (escapes : Bool) : Scan (List Char) := do
  literal [quote, quote, quote]
  let _ ← optional newline
  let pieces ← repeated (multilineRound quote escapes)
  let row ← takeWhile (· = quote)
  check (3 ≤ row.length && row.length ≤ 5)
  return pieces.flatten ++ row.drop 3

/-- A string in any form. -/
def string : Scan String := do
  let cs ← multilineString '"' true <|> multilineString '\'' false <|> basicString <|> literalString
  return String.ofList cs

end SimTerm.Toml.Scan
