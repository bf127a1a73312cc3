/-!
# Scanning text

A scan takes characters from the front of a text and yields a value, or fails. When the first of two
alternatives fails, the second starts at the same place.

Scans that repeat are bounded by the number of characters that are left, since each round takes one.
-/

namespace SimTerm.Toml

/-- A scan of the characters of a text. -/
abbrev Scan := StateT (List Char) Option

namespace Scan

/-- The next character, which is left in place. -/
def peek? : Scan (Option Char) := do
  return (← get).head?

/-- Take the next character if it is in a class. -/
def satisfy (p : Char → Bool) : Scan Char := do
  match ← get with
  | c :: cs => if p c then set cs; return c else failure
  | [] => failure

/-- Take this character. -/
def char (c : Char) : Scan Unit := do
  let _ ← satisfy (· = c)

/-- Take these characters. -/
def literal : List Char → Scan Unit
  | [] => pure ()
  | c :: cs => do
    char c
    literal cs

/-- Take this character if it comes next, and tell whether it did. -/
def skip (c : Char) : Scan Bool := do
  match ← get with
  | d :: cs => if c = d then set cs; return true else return false
  | [] => return false

/-- Take all characters of a class that come next. -/
def takeWhile (p : Char → Bool) : Scan (List Char) := do
  let cs ← get
  set (cs.dropWhile p)
  return cs.takeWhile p

/-- Take characters of a class, at least one. -/
def takeSome (p : Char → Bool) : Scan (List Char) := do
  let cs ← takeWhile p
  if cs = [] then failure else return cs

/-- Take this many characters of a class. -/
def exactly (p : Char → Bool) : Nat → Scan (List Char)
  | 0 => return []
  | n + 1 => do return (← satisfy p) :: (← exactly p n)

/-- Repeat a scan as long as it yields a value, at most so often. -/
def repeatWithin (round : Scan (Option α)) : Nat → Scan (List α)
  | 0 => return []
  | n + 1 => do
    match ← round with
    | some a => return a :: (← repeatWithin round n)
    | none => return []

/-- Repeat a scan that takes at least one character as long as it yields a value. -/
def repeated (round : Scan (Option α)) : Scan (List α) := do
  repeatWithin round ((← get).length + 1)

/-- The end of the text. -/
def atEnd : Scan Unit := do
  if (← get) = [] then pure () else failure

/-- The value, or none with nothing taken. -/
def optional (s : Scan α) : Scan (Option α) :=
  (some <$> s) <|> pure none

/-- Fail unless the condition holds. -/
def check (b : Bool) : Scan Unit :=
  if b then pure () else failure

/-! ## Blanks, line ends and comments -/

/-- A blank within a line. -/
def isSpace (c : Char) : Bool :=
  c == ' ' || c == '\t'

/-- A character above ASCII. -/
def isBeyondAscii (c : Char) : Bool :=
  0x80 ≤ c.toNat

/-- A character that may stand in a line: a tab, or any character that is not a control. -/
def isText (c : Char) : Bool :=
  c == '\t' || (0x20 ≤ c.toNat && c.toNat ≤ 0x7E) || isBeyondAscii c

/-- Take blanks. -/
def spaces : Scan Unit := do
  let _ ← takeWhile isSpace

/-- Take a line feed, or a carriage return and a line feed. -/
def newline : Scan Unit := do
  let _ ← skip '\r'
  char '\n'

/-- Take a comment up to the end of the line. -/
def comment : Scan Unit := do
  char '#'
  let _ ← takeWhile isText

/-- Take the end of a line or of the text. -/
def lineEnd : Scan Unit :=
  newline <|> atEnd

/-- Take what may follow the last token of a line. -/
def lineRest : Scan Unit := do
  spaces
  if (← peek?) = some '#' then comment
  lineEnd

/-- One round of blanks, comments and line ends. -/
def blankRound : Scan (Option Unit) := do
  spaces
  match ← peek? with
  | some '#' => do
    comment
    newline
    return some ()
  | some '\n' => do
    newline
    return some ()
  | some '\r' => do
    newline
    return some ()
  | _ => return none

/-- Take blanks, comments and line ends. -/
def blanks : Scan Unit := do
  let _ ← repeated blankRound

end Scan

end SimTerm.Toml
