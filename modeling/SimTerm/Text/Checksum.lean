import SimTerm.Text.Units

/-!
# Checksums

The FNV-1a hash of a text in 32 bits, taken over its UTF-16 units and written in lowercase
hexadecimal digits without leading zeros.
-/

namespace SimTerm.Text

/-- The FNV-1a hash of a row of units. -/
def fnv1a (us : List Nat) : UInt32 :=
  us.foldl (fun h u => (h ^^^ UInt32.ofNat u) * 16777619) 2166136261

/-- The checksum of a text. -/
def checksum (s : String) : String :=
  String.ofList (Nat.toDigits 16 (fnv1a (units s)).toNat)

end SimTerm.Text
