import SimTerm.Text.Blank
import SimTerm.Text.Pieces

/-!
# Command lines

A command line is cut three times. A semicolon ends a *part*, and the parts of a line all run. A bar
ends a *stage* of a part, and what one stage prints is the input of the next. A blank character ends
a *token* of a stage; the first token names a command and the others are its arguments.

A double quote switches quoting on and off. Inside quotes the separators and the blanks are ordinary
characters. There are no escapes, and a quote that is never closed runs to the end. The first two
cuts keep the quotes, so that the next one still sees them; only the cut into tokens drops them.
-/

namespace SimTerm.Line

open Text

/-- The pieces between the separators that stand outside quotes, quotes kept; the flag says whether
the text starts inside quotes. -/
def unquotedPieces (sep : Char) : Bool → List Char → List (List Char)
  | _, [] => [[]]
  | quoted, c :: cs =>
    let quoted := if c = '"' then !quoted else quoted
    if c = sep && !quoted then
      [] :: unquotedPieces sep quoted cs
    else
      consFirst c (unquotedPieces sep quoted cs)

/-- The pieces between the blanks that stand outside quotes, quotes dropped; the flag says whether
the text starts inside quotes. -/
def tokenPieces : Bool → List Char → List (List Char)
  | _, [] => [[]]
  | quoted, c :: cs =>
    if c = '"' then
      tokenPieces (!quoted) cs
    else if isBlank c && !quoted then
      [] :: tokenPieces quoted cs
    else
      consFirst c (tokenPieces quoted cs)

/-- The trimmed pieces that are not empty. -/
def trimmedPieces (sep : Char) (text : List Char) : List (List Char) :=
  ((unquotedPieces sep false text).map trim).filter (· ≠ [])

/-- The parts of a line. -/
def parts (line : String) : List String :=
  (trimmedPieces ';' line.toList).map String.ofList

/-- The stages of a part. -/
def stages (part : String) : List String :=
  (trimmedPieces '|' part.toList).map String.ofList

/-- The tokens of a stage; an empty token, quoted or not, is none. -/
def tokens (stage : String) : List String :=
  ((tokenPieces false stage.toList).filter (· ≠ [])).map String.ofList

/-- The tokens of every stage of every part. -/
def parse (line : String) : List (List (List String)) :=
  (parts line).map fun part => (stages part).map tokens

end SimTerm.Line
