/-!
# UTF-16 units

Sizes and checksums of contents are counted in 16-bit units: a character of the basic plane is one
unit, any other a surrogate pair.
-/

namespace SimTerm.Text

/-- The units of a character. -/
def charUnits (c : Char) : List Nat :=
  if c.toNat < 0x10000 then [c.toNat]
  else [0xD800 + (c.toNat - 0x10000) / 0x400, 0xDC00 + (c.toNat - 0x10000) % 0x400]

/-- The units of a text. -/
def units (s : String) : List Nat :=
  s.toList.flatMap charUnits

/-- The number of units of a text. -/
def unitCount (s : String) : Nat :=
  (units s).length

end SimTerm.Text
