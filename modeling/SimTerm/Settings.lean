import SimTerm.Path

/-!
# Settings

What a terminal is set up with, and the values taken where nothing is said.
-/

namespace SimTerm

/-- The fewest rows a grid has. -/
def minRows : Nat := 12

/-- The fewest columns a grid has. -/
def minCols : Nat := 40

/-- The settings of a terminal. -/
structure Settings where
  user : String := "guest"
  host : String := "cedar"
  /-- What stands behind the working directory in the prompt. -/
  promptTail : String := "$ "
  startDir : String := "/"
  rows : Nat := 25
  cols : Nat := 80
  /-- The pause before a submitted line runs, in milliseconds. -/
  execDelay : Nat := 25
  /-- The greatest random addition to that pause. -/
  execDelayJitter : Nat := 25
  /-- The default tree is a root without entries. -/
  bareTree : Bool := false
  /-- The directory that keeps the state; without one it is kept in memory. -/
  stateDir : Option String := none
  /-- A boot log is shown before the first prompt. -/
  boot : Bool := true
deriving DecidableEq, Repr

/-- The home directory of the user. -/
def Settings.homeDir (s : Settings) : String :=
  Path.home s.user

end SimTerm
