/-!
# Searching a text

`occursIn needle text` says that `text` holds `needle` as a stretch of neighbouring characters; the
empty text occurs everywhere.
-/

namespace SimTerm.Text

/-- The characters of `needle` stand somewhere in a row. -/
def occursIn (needle : List Char) : List Char → Bool
  | [] => needle = []
  | c :: cs => needle.isPrefixOf (c :: cs) || occursIn needle cs

/-- A string occurs in another. -/
def contains (text needle : String) : Bool :=
  occursIn needle.toList text.toList

end SimTerm.Text
