import SimTerm.Machine

/-!
# What is there to see

A machine shows frames and asks for pauses. Whoever watches it sees both in one order: a pause falls
between the frames that were shown before it was asked for and those shown after it.
-/

namespace SimTerm

/-- A moment of what there is to see. -/
inductive Scene where
  | frame (rows : Grid)
  | pause (length : Millis)
deriving DecidableEq, Repr

namespace Scene

/-- Frames and pauses in one order, where `seen` frames were shown before the first of them. -/
def ordered (seen : Nat) : List Grid → List Pause → List Scene
  | frames, [] => frames.map .frame
  | [], pauses => pauses.map fun p => .pause p.length
  | g :: frames, p :: pauses =>
    if p.frames ≤ seen then .pause p.length :: ordered seen (g :: frames) pauses
    else .frame g :: ordered (seen + 1) frames (p :: pauses)
termination_by frames pauses => frames.length + pauses.length

end Scene

namespace Machine

/-- Everything there is to see, from the first frame on. -/
def scenes (m : Machine) : List Scene :=
  Scene.ordered 0 m.session.screen.frames.reverse m.pauses

/-- The machine with nothing to see yet; it stands as it stood. -/
def unseen (m : Machine) : Machine :=
  { m with
    session := { m.session with screen := { m.session.screen with frames := [] } }, pauses := [] }

end Machine

end SimTerm
