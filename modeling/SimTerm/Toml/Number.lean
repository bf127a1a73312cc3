import SimTerm.Binary64
import SimTerm.Json.Numeral
import SimTerm.Toml.Text

/-!
# TOML numbers and dates

Integers are decimal with a sign, or hexadecimal, octal or binary with a prefix; an underscore may
stand between two digits, and the value has to fit into 64 bits with a sign. Floats and dates are
checked but not kept: no setting is one.
-/

namespace SimTerm.Toml.Scan

/-- A digit of a base given by its prefix letter. -/
def isDigitOf (base : Nat) (c : Char) : Bool :=
  (Json.hexValue? c).any (· < base)

/-- One more digit, with or without an underscore before it. -/
def digitRound (base : Nat) : Scan (Option Char) := do
  let underscore ← skip '_'
  match ← peek? with
  | some c =>
    if isDigitOf base c then
      return some (← satisfy (isDigitOf base))
    else if underscore then failure
    else return none
  | none => if underscore then failure else return none

/-- Digits with underscores between them, at least one; the underscores are dropped. -/
def digits (base : Nat) : Scan (List Char) := do
  let first ← satisfy (isDigitOf base)
  return first :: (← repeated (digitRound base))

/-- An optional sign: whether it is a minus. -/
def sign : Scan Bool := do
  if ← skip '-' then return true
  else
    let _ ← skip '+'
    return false

/-- A decimal number without a leading zero. -/
def plainDigits : Scan (List Char) := do
  if (← peek?) = some '0' then
    char '0'
    return ['0']
  else digits 10

/-- The number that digits of a base denote. -/
def valueOf (base : Nat) (cs : List Char) : Nat :=
  cs.foldl (fun n c => base * n + (Json.hexValue? c).getD 0) 0

/-- The number fits into 64 bits with a sign. -/
def fitsInt64 (n : Int) : Bool :=
  Int64.minValue.toInt ≤ n && n ≤ Int64.maxValue.toInt

/-- A number with a prefix. -/
def prefixed (letter : Char) (base : Nat) : Scan Int := do
  literal ['0', letter]
  return valueOf base (← digits base)

/-- A decimal number with a sign. -/
def decimal : Scan Int := do
  let negative ← sign
  let n := valueOf 10 (← plainDigits)
  return if negative then -(n : Int) else n

/-- An integer. -/
def integer : Scan Int := do
  let n ← prefixed 'x' 16 <|> prefixed 'o' 8 <|> prefixed 'b' 2 <|> decimal
  check (fitsInt64 n)
  return n

/-- A fraction: a point and digits. -/
def fraction : Scan (List Char) := do
  char '.'
  digits 10

/-- An exponent, with its sign and digits. -/
def exponent : Scan (List Char) := do
  let _ ← satisfy fun c => c == 'e' || c == 'E'
  let negative ← sign
  let ds ← digits 10
  return if negative then '-' :: ds else ds

/-- The positive number is rounded to a finite 64-bit number. -/
def isFinite (whole fraction exponent : List Char) : Bool :=
  let e := (Json.Numeral.signedValue? exponent).getD 0
  Binary64.finiteRounded (valueOf 10 (whole ++ fraction)) (e - fraction.length)

/-- A decimal number with a fraction or an exponent; one above the finite range is refused. -/
def fractional : Scan Unit := do
  let negative ← sign
  let whole ← plainDigits
  let decimals ← optional fraction
  let power ← optional exponent
  check (decimals.isSome || power.isSome)
  check (negative || isFinite whole (decimals.getD []) (power.getD []))

/-- An infinity or a number that is none. -/
def specialFloat : Scan Unit := do
  let _ ← sign
  literal ['i', 'n', 'f'] <|> literal ['n', 'a', 'n']

/-- A float. -/
def float : Scan Unit :=
  fractional <|> specialFloat

/-! ## Dates and times -/

/-- A number of exactly so many digits in a range. -/
def field (width low high : Nat) : Scan Nat := do
  let n := valueOf 10 (← exactly Char.isDigit width)
  check (low ≤ n && n ≤ high)
  return n

/-- The year has a leap day. -/
def isLeap (year : Nat) : Bool :=
  year % 4 = 0 && (year % 100 ≠ 0 || year % 400 = 0)

/-- The days of a month. -/
def daysIn (year month : Nat) : Nat :=
  if month = 2 then (if isLeap year then 29 else 28)
  else if month = 4 || month = 6 || month = 9 || month = 11 then 30
  else 31

/-- A date. -/
def date : Scan Unit := do
  let year ← field 4 0 9999
  char '-'
  let month ← field 2 1 12
  char '-'
  let day ← field 2 1 31
  check (day ≤ daysIn year month)

/-- A fraction of a second. -/
def secondFraction : Scan Unit := do
  char '.'
  let _ ← takeSome Char.isDigit

/-- A time of day; the last minute may have 61 seconds. -/
def time : Scan Unit := do
  let _ ← field 2 0 23
  char ':'
  let _ ← field 2 0 59
  char ':'
  let _ ← field 2 0 60
  let _ ← optional secondFraction

/-- A distance from universal time. -/
def offset : Scan Unit := do
  let c ← satisfy fun c => c == 'Z' || c == 'z' || c == '+' || c == '-'
  if c == '+' || c == '-' then
    let _ ← field 2 0 23
    char ':'
    let _ ← field 2 0 59

/-- What may follow a date: a time, with or without an offset. -/
def timeOfDate : Scan Unit := do
  let _ ← satisfy fun c => c == 'T' || c == 't' || c == ' '
  time
  let _ ← optional offset

/-- A date, a time, or both. -/
def moment : Scan Unit :=
  (do
    date
    let _ ← optional timeOfDate) <|> time

end SimTerm.Toml.Scan
