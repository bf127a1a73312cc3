import SimTerm.Json.Quoted
import SimTerm.Json.Value

/-!
# Reading JSON

The reader is a machine that takes one character at a time. Its `Mode` says what kind of token the
character belongs to; a finished token is handed to a stack of open arrays and objects. The stack
makes nesting of any depth readable in one pass, and a text is read by following it from its first
character to its last, so there is nothing to bound.

Only the grammar is checked here. Whether the strings have a text, the numbers are in range and the
nesting is not too deep is said by `Json.admitted` of the value that was read.
-/

namespace SimTerm.Json

/-- A token, literals and numerals already read. -/
inductive Token where
  | openArray
  | closeArray
  | openObject
  | closeObject
  | comma
  | colon
  | scalar (j : Json)

/-- An open array or object with what it holds so far, the latest first. -/
inductive Frame where
  | array (items : List Json)
  | object (members : List (Option String × Json))
  /-- An object whose next member has this name and waits for its value. -/
  | member (members : List (Option String × Json)) (name : Option String)

/-- What may come next. -/
inductive Expect where
  | value
  /-- A value, or the end of an array that was just opened. -/
  | valueOrEnd
  | name
  /-- A name, or the end of an object that was just opened. -/
  | nameOrEnd
  | colon
  /-- A comma or the end of the array or object. -/
  | separator
  /-- Nothing: the value is complete. -/
  | nothing (j : Json)

/-- The open arrays and objects, the innermost first, and what may come next. -/
structure Stack where
  frames : List Frame
  expect : Expect

/-- Where a value comes to stand once it is complete. -/
def Stack.accept (j : Json) : List Frame → Option Stack
  | [] => some ⟨[], .nothing j⟩
  | .array items :: fs => some ⟨.array (j :: items) :: fs, .separator⟩
  | .member members name :: fs => some ⟨.object ((name, j) :: members) :: fs, .separator⟩
  | .object _ :: _ => none

/-- A token where a value may start. -/
def Stack.startValue (fs : List Frame) : Token → Option Stack
  | .scalar j => accept j fs
  | .openArray => some ⟨.array [] :: fs, .valueOrEnd⟩
  | .openObject => some ⟨.object [] :: fs, .nameOrEnd⟩
  | _ => none

/-- A token where a name has to come. -/
def Stack.takeName : List Frame → Token → Option Stack
  | .object members :: fs, .scalar (.string name) => some ⟨.member members name :: fs, .colon⟩
  | _, _ => none

/-- The end of an array. -/
def Stack.endArray : List Frame → Option Stack
  | .array items :: fs => accept (.array items.reverse) fs
  | _ => none

/-- The end of an object. -/
def Stack.endObject : List Frame → Option Stack
  | .object members :: fs => accept (.object members.reverse) fs
  | _ => none

/-- Take one token. -/
def Stack.take (s : Stack) (t : Token) : Option Stack :=
  match s.expect, t with
  | .valueOrEnd, .closeArray => endArray s.frames
  | .nameOrEnd, .closeObject => endObject s.frames
  | .separator, .closeArray => endArray s.frames
  | .separator, .closeObject => endObject s.frames
  | .separator, .comma =>
    match s.frames with
    | .array _ :: _ => some { s with expect := .value }
    | .object _ :: _ => some { s with expect := .name }
    | _ => none
  | .colon, .colon => some { s with expect := .value }
  | .value, t => startValue s.frames t
  | .valueOrEnd, t => startValue s.frames t
  | .name, t => takeName s.frames t
  | .nameOrEnd, t => takeName s.frames t
  | _, _ => none

/-- The part of a token that has been read, the latest character first. -/
inductive Mode where
  | between
  | word (letters : List Char)
  | numeral (chars : List Char)
  | string (pieces : List Piece)
  /-- Inside a literal, behind a backslash. -/
  | escape (pieces : List Piece)
  /-- Inside a literal, with the unit read so far and the number of digits still to come. -/
  | hex (pieces : List Piece) (unit : Nat) (left : Nat)

/-- The state of the reader. -/
structure Reader where
  mode : Mode
  stack : Stack

/-- The value that a word names. -/
def wordValue? (letters : List Char) : Option Json :=
  match letters with
  | ['n', 'u', 'l', 'l'] => some .null
  | ['t', 'r', 'u', 'e'] => some (.bool true)
  | ['f', 'a', 'l', 's', 'e'] => some (.bool false)
  | _ => none

/-- The characters that a numeral may hold. -/
def isNumeralChar (c : Char) : Bool :=
  c.isDigit || c == '-' || c == '+' || c == '.' || c == 'e' || c == 'E'

/-- The blanks between tokens. -/
def isSpace (c : Char) : Bool :=
  c == ' ' || c == '\n' || c == '\t' || c == '\r'

/-- The token that a punctuation character is. -/
def punctuation? : Char → Option Token
  | '[' => some .openArray
  | ']' => some .closeArray
  | '\x7b' => some .openObject
  | '\x7d' => some .closeObject
  | ',' => some .comma
  | ':' => some .colon
  | _ => none

/-- Take a character that belongs to no token begun before it. -/
def Reader.start (s : Stack) (c : Char) : Option Reader :=
  if isSpace c then some ⟨.between, s⟩
  else if c = '"' then some ⟨.string [], s⟩
  else if c.isDigit || c = '-' then some ⟨.numeral [c], s⟩
  else if c.isLower then some ⟨.word [c], s⟩
  else
    match punctuation? c with
    | some t => (s.take t).map (⟨.between, ·⟩)
    | none => none

/-- Hand over a word or numeral that has come to its end. -/
def Reader.flush (r : Reader) : Option Stack :=
  match r.mode with
  | .between => some r.stack
  | .word letters => (wordValue? letters.reverse).bind fun j => r.stack.take (.scalar j)
  | .numeral chars => (Numeral.read? chars.reverse).bind fun n => r.stack.take (.scalar (.number n))
  | _ => none

/-- Take one character. -/
def Reader.step (r : Reader) (c : Char) : Option Reader :=
  match r.mode with
  | .between => start r.stack c
  | .word letters =>
    if c.isLower then some { r with mode := .word (c :: letters) }
    else r.flush.bind (start · c)
  | .numeral chars =>
    if isNumeralChar c then some { r with mode := .numeral (c :: chars) }
    else r.flush.bind (start · c)
  | .string pieces =>
    if c = '"' then
      let text := (textOf? pieces.reverse).map String.ofList
      (r.stack.take (.scalar (.string text))).map (⟨.between, ·⟩)
    else if c = '\\' then some { r with mode := .escape pieces }
    else if c.toNat < 0x20 then none
    else some { r with mode := .string (.char c :: pieces) }
  | .escape pieces =>
    if c = 'u' then some { r with mode := .hex pieces 0 4 }
    else (shortEscape? c).map fun d => { r with mode := .string (.char d :: pieces) }
  | .hex pieces unit left =>
    (hexValue? c).map fun d =>
      let unit := 16 * unit + d
      if left ≤ 1 then { r with mode := .string (.unit unit :: pieces) }
      else { r with mode := .hex pieces unit (left - 1) }

/-- Take the characters in order. -/
def Reader.run (r : Reader) : List Char → Option Reader
  | [] => some r
  | c :: cs =>
    match r.step c with
    | some r => r.run cs
    | none => none

/-- The value that has been read when the text ends here. -/
def Reader.finish (r : Reader) : Option Json :=
  match r.flush with
  | some ⟨_, .nothing j⟩ => some j
  | _ => none

/-- The reader in front of a text. -/
def Reader.initial : Reader :=
  ⟨.between, ⟨[], .value⟩⟩

/-- The value that a text consists of, blanks around it allowed. -/
def read? (text : String) : Option Json :=
  (Reader.initial.run text.toList).bind Reader.finish

/-- The value that a stored text consists of, if it is admitted. -/
def readStored? (text : String) : Option Json :=
  (read? text).filter admitted

end SimTerm.Json
