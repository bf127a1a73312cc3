import SimTerm.Random.Keystream

/-!
# Drawing numbers

Numbers drawn from a keystream. A number of 64 bits is two words, the low one first. A number below
`n` is drawn by multiplying a draw of `bits` bits by `n` and taking the part above `bits` bits; a
draw whose lower part is above `zone` is thrown away, which makes all numbers below `n` equally
likely. At least every second draw is taken, so a long row of bad draws never happens; it would end
with 0.

A chance in per cent is met by comparing a draw of 52 bits with it, all in whole numbers.
-/

namespace SimTerm.Random

/-- A computation that draws from a keystream. -/
abbrev Draw := StateM Keystream

/-- Draw 32 bits. -/
def word32 : Draw Nat := do
  let (w, k) := (← get).word
  set k
  return w.toNat

/-- Draw 64 bits. -/
def word64 : Draw Nat := do
  let low ← word32
  let high ← word32
  return high * UInt32.size + low

/-- The width of the words that a number is drawn from. -/
inductive Width where
  | narrow
  | wide
deriving DecidableEq, Repr

/-- The bits of a word. -/
def Width.bits : Width → Nat
  | .narrow => 32
  | .wide => 64

/-- The number of words. -/
def Width.size : Width → Nat
  | .narrow => UInt32.size
  | .wide => UInt64.size

/-- Draw a word. -/
def Width.draw : Width → Draw Nat
  | .narrow => word32
  | .wide => word64

/-- The greatest lower part of a draw that is taken: `n` moved up to the highest bit, less one. -/
def zone (bits n : Nat) : Nat :=
  n * Nat.pow 2 (bits - (n.log2 + 1)) - 1

/-- How often a draw is tried. -/
def maxTries : Nat := 256

/-- Draw a number below `n`, in at most so many tries. -/
def belowWithin (width : Width) (n : Nat) : Nat → Draw Nat
  | 0 => return 0
  | tries + 1 => do
    let product := (← width.draw) * n
    if product % width.size ≤ zone width.bits n then
      return product / width.size
    else
      belowWithin width n tries

/-- Draw a number from `low` to `high`, both included. -/
def between (width : Width) (low high : Nat) : Draw Nat := do
  return low + (← belowWithin width (high - low + 1) maxTries)

/-- Draw whether a thing with this chance in `2 ^ 64` happens. -/
def happens (chance : Nat) : Draw Bool := do
  return decide ((← word64) < chance)

/-- Draw a number of 52 bits, a point of the unit interval, and tell whether it lies below a chance
in per cent. -/
def belowPercent (percent : Nat) : Draw Bool := do
  let point := (← word64) / Nat.pow 2 12
  return decide (100 * point < percent * Nat.pow 2 52)

end SimTerm.Random
