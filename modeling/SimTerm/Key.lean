/-!
# Keys

A key press is a key together with the modifiers held down. Three presses have a meaning of their
own: a character without modifiers is typed, Ctrl+L clears the screen, and Ctrl+Alt+R reboots.
-/

namespace SimTerm

/-- A key of the keyboard. -/
inductive Key where
  | char (c : Char)
  | enter
  | backspace
  | delete
  | left
  | right
  | up
  | down
  | home
  | «end»
deriving DecidableEq, Repr

/-- The modifier keys held down. -/
structure Modifiers where
  ctrl : Bool := false
  alt : Bool := false
  metaKey : Bool := false
deriving DecidableEq, Repr

/-- A key press. -/
structure KeyPress where
  key : Key
  modifiers : Modifiers := {}
deriving DecidableEq, Repr

/-- At least one modifier is held down. -/
def Modifiers.any (m : Modifiers) : Bool :=
  m.ctrl || m.alt || m.metaKey

namespace KeyPress

/-- A character typed without modifiers. -/
def typed (c : Char) : KeyPress :=
  { key := .char c }

/-- The character that the press types. -/
def printable? (p : KeyPress) : Option Char :=
  match p.key with
  | .char c => if p.modifiers.any then none else some c
  | _ => none

/-- Ctrl+L in either case, with neither Alt nor Meta. -/
def clearsScreen (p : KeyPress) : Bool :=
  p.modifiers.ctrl && !p.modifiers.alt && !p.modifiers.metaKey &&
    (p.key = .char 'l' || p.key = .char 'L')

/-- Ctrl+Alt+R in either case, with or without Meta. -/
def reboots (p : KeyPress) : Bool :=
  p.modifiers.ctrl && p.modifiers.alt && (p.key = .char 'r' || p.key = .char 'R')

end KeyPress

end SimTerm
