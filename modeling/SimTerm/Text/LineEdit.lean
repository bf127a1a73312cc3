import SimTerm.Text.Pieces

/-!
# Editing one line of a text

A line is addressed by its number, the first being 1. Replacing a line behind the last one adds
empty lines up to it. A line number is written in decimal digits, a plus sign in front allowed, and
fits into 64 bits.
-/

namespace SimTerm.Text

/-- A natural number in decimal digits, a plus sign in front allowed, below `2 ^ 64`. -/
def wholeNumber? (s : String) : Option Nat :=
  let digits :=
    match s.toList with
    | '+' :: cs => cs
    | cs => cs
  if digits = [] || !digits.all Char.isDigit then none
  else
    let n := digits.foldl (fun n c => 10 * n + (c.toNat - '0'.toNat)) 0
    if n < UInt64.size then some n else none

/-- The number of a line. -/
def lineNumber? (s : String) : Option Nat :=
  (wholeNumber? s).filter (1 ≤ ·)

/-- The lines with line `n` replaced; there are at least `n` of them afterwards. -/
def replaceLine (ls : List String) (n : Nat) (line : String) : List String :=
  (ls ++ List.replicate (n - ls.length) "").set (n - 1) line

/-- The lines after an edit at a place: `+` is behind the last line, a number is the line it
counts. -/
def editLines? (ls : List String) (place line : String) : Option (List String) :=
  if place = "+" then some (ls ++ [line])
  else (lineNumber? place).map fun n => replaceLine ls n line

end SimTerm.Text
