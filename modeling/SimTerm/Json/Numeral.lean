import SimTerm.Binary64

/-!
# JSON numerals

A numeral is read exactly: as a natural number if it is written with digits only, and otherwise as a
signed whole number of units of a power of ten. Whether a numeral still lies in the range of the
64-bit binary floating point numbers is a question that readers of untyped values ask; it is decided
in whole numbers.
-/

namespace SimTerm.Json

/-- What a JSON number says. -/
inductive Numeral where
  /-- A numeral of digits only. -/
  | natural (n : Nat)
  /-- A numeral with a sign, a fraction or an exponent: `digits * 10 ^ exponent`, negated or not. -/
  | decimal (negative : Bool) (digits : Nat) (exponent : Int)
deriving DecidableEq, Repr

namespace Numeral

/-- The number that a row of decimal digits denotes. -/
def digitsValue (cs : List Char) : Nat :=
  cs.foldl (fun n c => 10 * n + (c.toNat - '0'.toNat)) 0

/-- The decimal digits of a number, without leading zeros. -/
def digitsOf (n : Nat) : List Char :=
  Nat.toDigits 10 n

/-- A sign in front of a text, and the text after it. -/
def splitMinus : List Char → Bool × List Char
  | '-' :: cs => (true, cs)
  | cs => (false, cs)

/-- The digits after a decimal point, and the text after them; a point needs a digit behind it. -/
def splitFraction : List Char → Option (List Char × List Char)
  | '.' :: cs =>
    let digits := cs.takeWhile Char.isDigit
    if digits = [] then none else some (digits, cs.dropWhile Char.isDigit)
  | cs => some ([], cs)

/-- A whole number with an optional sign, and nothing after it. -/
def signedValue? (cs : List Char) : Option Int :=
  let (negative, digits) :=
    match cs with
    | '-' :: ds => (true, ds)
    | '+' :: ds => (false, ds)
    | ds => (false, ds)
  if digits = [] || !digits.all Char.isDigit then none
  else some (if negative then -(digitsValue digits : Int) else digitsValue digits)

/-- The exponent that ends a numeral; `none` inside stands for no exponent at all. -/
def exponent? : List Char → Option (Option Int)
  | [] => some none
  | 'e' :: cs => (signedValue? cs).map some
  | 'E' :: cs => (signedValue? cs).map some
  | _ => none

/-- Read a numeral: a sign, digits without a leading zero, a fraction, an exponent. -/
def read? (cs : List Char) : Option Numeral := do
  let (negative, cs) := splitMinus cs
  let whole := cs.takeWhile Char.isDigit
  if whole = [] then none
  if whole.head? = some '0' && whole.length ≠ 1 then none
  let (fraction, cs) ← splitFraction (cs.dropWhile Char.isDigit)
  match negative, fraction, ← exponent? cs with
  | false, [], none => some (natural (digitsValue whole))
  | _, _, exponent =>
    some (decimal negative (digitsValue (whole ++ fraction))
      (exponent.getD 0 - fraction.length))

/-- Write a numeral so that it reads back as the same one. -/
def render : Numeral → List Char
  | natural n => digitsOf n
  | decimal negative digits exponent =>
    (if negative then ['-'] else []) ++ digitsOf digits ++ 'e' ::
      (if exponent < 0 then ['-'] else []) ++ digitsOf exponent.natAbs

/-- The numeral lies in the range of 64-bit floating point numbers when its value is computed. -/
def isFinite : Numeral → Bool
  | natural n => Binary64.finiteComputed n 0
  | decimal _ digits exponent => Binary64.finiteComputed digits exponent

end Numeral

end SimTerm.Json
