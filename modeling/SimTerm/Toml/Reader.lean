import SimTerm.Toml.Number
import SimTerm.Toml.Table

/-!
# Reading TOML

A document is a row of lines: blank ones, comments, headers, and keys with values. A key is bare, or
a string on one line; keys joined by dots lead through tables. Arrays may go over several lines,
tables in braces may not. Arrays and braces are nested, and keys are dotted, fewer than `maxNesting`
times.
-/

namespace SimTerm.Toml

namespace Scan

/-- Nesting and dotting stay below this. -/
def maxNesting : Nat := 80

/-- A character of a bare key. -/
def isBare (c : Char) : Bool :=
  c.isAlphanum || c == '_' || c == '-'

/-- A key without dots, with blanks around it. -/
def simpleKey : Scan String := do
  spaces
  let cs ←
    match ← peek? with
    | some '"' => basicString
    | some '\'' => literalString
    | _ => takeSome isBare
  spaces
  return String.ofList cs

/-- A dot and the key behind it. -/
def dottedRound : Scan (Option String) := do
  if ← skip '.' then return some (← simpleKey) else return none

/-- A key, as the keys between its dots. -/
def key : Scan (List String) := do
  let first ← simpleKey
  let keys := first :: (← repeated dottedRound)
  check (keys.length < maxNesting)
  return keys

/-- A comma and what it separates, if there is one more. -/
def afterComma (s : Scan α) : Scan (Option α) :=
  optional do
    char ','
    s

/-- An array of values. -/
def arrayOf (value : Scan Item) : Scan Item := do
  let element : Scan Item := do
    blanks
    let v ← value
    blanks
    return v
  char '['
  match ← optional element with
  | some _ => do
    let _ ← repeated (afterComma element)
    let _ ← skip ','
  | none => pure ()
  blanks
  char ']'
  return .other

/-- A key and its value, with blanks around the value. -/
def pairOf (value : Scan Item) : Scan (List String × Item) := do
  let keys ← key
  char '='
  spaces
  let v ← value
  spaces
  return (keys, v)

/-- A table in braces. -/
def bracesOf (value : Scan Item) : Scan Item := do
  char '\x7b'
  let pairs ←
    match ← optional (pairOf value) with
    | some p => (p :: ·) <$> repeated (afterComma (pairOf value))
    | none => pure []
  spaces
  char '\x7d'
  let add (es : Entries Item) (p : List String × Item) : Option (Entries Item) :=
    Item.define p.1 p.2 .header es
  match pairs.foldlM add [] with
  | some entries => return .table .braces entries
  | none => failure

/-- A number or a moment. -/
def numberOrMoment : Scan Item :=
  (do moment; return .other) <|> (do float; return .other) <|> (do return .integer (← integer))

/-- A value that holds no others. -/
def scalar : Scan Item := do
  match ← peek? with
  | some '"' => return .text (← string)
  | some '\'' => return .text (← string)
  | some 't' => do
    literal ['t', 'r', 'u', 'e']
    return .boolean true
  | some 'f' => do
    literal ['f', 'a', 'l', 's', 'e']
    return .boolean false
  | _ => numberOrMoment

/-- A value in which arrays and braces are nested at most so deep. -/
def value : Nat → Scan Item
  | 0 => scalar
  | depth + 1 => do
    match ← peek? with
    | some '[' => arrayOf (value depth)
    | some '\x7b' => bracesOf (value depth)
    | _ => scalar

/-- A key with its value, to the end of the line. -/
def pairLine (d : Document) : Scan Document := do
  let keys ← key
  char '='
  spaces
  let v ← value (maxNesting - 1)
  lineRest
  (d.define keys v).elim failure pure

/-- A header, to the end of the line. -/
def headerLine (d : Document) : Scan Document := do
  char '['
  if ← skip '[' then
    let keys ← key
    literal [']', ']']
    lineRest
    (d.elementHeader keys).elim failure pure
  else
    let keys ← key
    char ']'
    lineRest
    (d.header keys).elim failure pure

/-- A line that is not empty. -/
def line (d : Document) : Scan Document := do
  match ← peek? with
  | some '#' => do
    comment
    lineEnd
    return d
  | some '\n' => do
    newline
    return d
  | some '\r' => do
    newline
    return d
  | some '[' => headerLine d
  | _ => pairLine d

/-- At most so many lines, to the end of the text. -/
def linesWithin (d : Document) : Nat → Scan Document
  | 0 => failure
  | n + 1 => do
    spaces
    if (← peek?).isNone then return d
    else linesWithin (← line d) n

end Scan

/-- The text without a byte order mark at its start. -/
def withoutMark : List Char → List Char
  | '\ufeff' :: cs => cs
  | cs => cs

/-- The entries of a document. -/
def read? (text : String) : Option (Entries Item) :=
  let cs := withoutMark text.toList
  ((Scan.linesWithin {} (cs.length + 1)).run cs).map fun (d, _) => d.entries

end SimTerm.Toml
