/-!
# The line editor

One line of input with a cursor between its characters. Inserting puts a character before the
cursor; line breaks are not inserted one by one, though a text put in whole is taken as it is. A
text put in whole is kept through the next prompt, and a text shown in place of the input is not.
-/

namespace SimTerm

/-- A line being edited. -/
structure Editor where
  input : List Char := []
  /-- The number of characters before the cursor. -/
  cursor : Nat := 0
  /-- The input outlives the next prompt. -/
  kept : Bool := false
deriving DecidableEq, Repr

namespace Editor

/-- The characters before the cursor. -/
def before (e : Editor) : List Char :=
  e.input.take e.cursor

/-- The characters behind the cursor. -/
def after (e : Editor) : List Char :=
  e.input.drop e.cursor

/-- The character would end the line. -/
def isBreak (c : Char) : Bool :=
  c == '\r' || c == '\n'

/-- Put a text before the cursor. -/
def put (e : Editor) (text : List Char) : Editor :=
  { e with input := e.before ++ text ++ e.after, cursor := e.cursor + text.length }

/-- Put a text before the cursor and keep the input through the next prompt. -/
def paste (e : Editor) (text : List Char) : Editor :=
  { e.put text with kept := true }

/-- Show a text with the cursor behind it, whether or not it is kept. -/
def replace (e : Editor) (text : List Char) : Editor :=
  { e with input := text, cursor := text.length }

/-- Show a text until the next prompt. -/
def echo (text : List Char) : Editor :=
  { input := text, cursor := text.length, kept := false }

/-- Remove the character before the cursor. -/
def backspace (e : Editor) : Editor :=
  { e with input := e.input.eraseIdx (e.cursor - 1), cursor := e.cursor - 1 }

/-- Remove the character behind the cursor. -/
def delete (e : Editor) : Editor :=
  { e with input := e.input.eraseIdx e.cursor }

/-- Move the cursor, at most to either end. -/
def move (e : Editor) (delta : Int) : Editor :=
  { e with cursor := min (e.cursor + delta).toNat e.input.length }

/-- Move the cursor to the start. -/
def home (e : Editor) : Editor :=
  { e with cursor := 0 }

/-- Move the cursor to the end. -/
def toEnd (e : Editor) : Editor :=
  { e with cursor := e.input.length }

/-- What a new prompt starts with: the input if it is kept, and else nothing. -/
def atPrompt (e : Editor) : Editor :=
  if e.kept then { e with kept := false } else {}

end Editor

end SimTerm
