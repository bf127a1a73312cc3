/-!
# Floating point numbers of 64 bits

Such a number has 53 binary digits, and a finite one lies below `2 ^ 1024`. Rounding takes the
nearest number, and from the middle between two of them the even one. Here the roundings that matter
are done in whole numbers.

There are two ways from a decimal to a number. Rounded once, it becomes the number nearest to its
value. Computed, it becomes the product of its leading digits and a power of ten, each of them
rounded and the product rounded again; so near the end of the range the two ways may disagree about
what is finite.
-/

namespace SimTerm.Binary64

/-- A quotient rounded to the nearest whole number, a half to the even one. -/
def roundHalfEven (num den : Nat) : Nat :=
  let q := num / den
  let r := num % den
  if 2 * r > den || (2 * r = den && q % 2 = 1) then q + 1 else q

/-- The binary digits of a number. -/
def precision : Nat := 53

/-- The least power of two that no finite number reaches. -/
def limit : Nat :=
  Nat.pow 2 1024

/-- The number nearest to a whole number, in a range without an end. -/
def nearest (n : Nat) : Nat :=
  let unit := Nat.pow 2 (n.log2 + 1 - precision)
  roundHalfEven n unit * unit

/-- A finite number that is not negative in units of `2 ^ -1074`. -/
def smallUnits (x : Float) : Nat :=
  let bits := x.toBits.toNat
  let fraction := bits % Nat.pow 2 52
  let exponent := bits / Nat.pow 2 52 % Nat.pow 2 11
  if exponent = 0 then fraction else (Nat.pow 2 52 + fraction) * Nat.pow 2 (exponent - 1)

/-! ## Decimals -/

/-- The number of decimal digits. -/
def digitCount (n : Nat) : Nat :=
  (Nat.toDigits 10 n).length

/-- The least number that is rounded to infinity: half a unit in the last place above the greatest
finite one. -/
def overflow : Nat :=
  limit - Nat.pow 2 970

/-- The decimal `digits * 10 ^ exponent` is finite when it is rounded once. -/
def finiteRounded (digits : Nat) (exponent : Int) : Bool :=
  -- the value lies below `10 ^ places` and, unless it is zero, not below a tenth of that
  let places := exponent + digitCount digits
  if digits = 0 || places ≤ 308 then true
  else if places > 309 then false
  else if exponent < 0 then digits < overflow * Nat.pow 10 exponent.natAbs
  else digits * Nat.pow 10 exponent.natAbs < overflow

/-- The leading decimal digits that fit into 64 bits, and how many digits follow them. -/
def leadingDigits (n : Nat) : Nat × Nat :=
  if n < UInt64.size then (n, 0)
  else
    -- the greatest number of 64 bits has 20 digits
    let rest := digitCount n - 20
    let lead := n / Nat.pow 10 rest
    if lead < UInt64.size then (lead, rest) else (lead / 10, rest + 1)

/-- The greatest power of ten that is finite. -/
def maxPower : Int := 308

/-- The decimal `digits * 10 ^ exponent` is finite when it is computed. -/
def finiteComputed (digits : Nat) (exponent : Int) : Bool :=
  let (lead, rest) := leadingDigits digits
  let power := exponent + rest
  if lead = 0 || power ≤ 0 then true
  else if power > maxPower then false
  else nearest (nearest lead * nearest (Nat.pow 10 power.toNat)) < limit

end SimTerm.Binary64
