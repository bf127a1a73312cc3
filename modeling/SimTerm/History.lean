import SimTerm.Text.Blank

/-!
# History

The lines entered so far, the oldest first, and a position among them while the user browses. Going
up starts at the newest line and stops at the oldest; going down past the newest line ends browsing
with an empty line. A blank line is not kept, but ends browsing too.
-/

namespace SimTerm

/-- The lines entered, the oldest first, and the line shown while browsing. -/
structure History where
  entries : List String := []
  position : Option Nat := none
deriving DecidableEq, Repr

namespace History

/-- The user is browsing. -/
def browsing (h : History) : Bool :=
  h.position.isSome

/-- Stop browsing. -/
def leave (h : History) : History :=
  { h with position := none }

/-- Keep a line that is not blank, and stop browsing. -/
def push (h : History) (line : String) : History :=
  if Text.allBlank line.toList then h.leave
  else { entries := h.entries ++ [line], position := none }

/-- Go to the next older line, and tell which it is. -/
def up (h : History) : Option String × History :=
  if h.entries = [] then (none, h)
  else
    let i :=
      match h.position with
      | none => h.entries.length - 1
      | some i => i - 1
    (h.entries[i]?, { h with position := some i })

/-- Go to the next newer line, and tell which it is; behind the newest there is an empty line. -/
def down (h : History) : Option String × History :=
  match h.position with
  | none => (none, h)
  | some i =>
    if i + 1 < h.entries.length then (h.entries[i + 1]?, { h with position := some (i + 1) })
    else (some "", h.leave)

end History

end SimTerm
