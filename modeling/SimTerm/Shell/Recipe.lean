import SimTerm.Shell.Registry

/-!
# Commands described by data

A recipe says what a command prints, whether it shows its arguments, how it marks the lines it was
given, which line it runs, and with what words it fails. Each of these is done in this order if the
recipe asks for it.
-/

namespace SimTerm

/-- A command described by data. -/
structure Recipe where
  name : String
  usage : String
  description : String
  /-- Lines to print. -/
  lines : List String := []
  /-- Print each argument in angle brackets. -/
  showArgs : Bool := false
  /-- Print each line of the input behind this. -/
  tag : Option String := none
  /-- Run this line. -/
  line : Option String := none
  /-- Fail with these words. -/
  failure : Option String := none

namespace Recipe

/-- The line without one carriage return at its end. -/
def dropReturn (cs : List Char) : List Char :=
  if cs.getLast? = some '\r' then cs.dropLast else cs

/-- The lines of a text that ends its lines by a line feed, with or without a carriage return; what
follows the last line feed is a line only if it is not empty. -/
def endedLines : List (List Char) → List (List Char)
  | [] => []
  | [last] => if last = [] then [] else [last]
  | line :: lines => dropReturn line :: endedLines lines

/-- The lines of an input. -/
def inputLines (stdin : String) : List String :=
  (endedLines (Text.pieces '\n' stdin.toList)).map String.ofList

/-- Run a line and say how many of its stages succeeded, and whether the input is what it was. -/
def runAndReport (d : Dispatcher) (line : String) : Shell Unit := do
  let before := (← get).stdin
  let outcomes ← d.run line
  let kept := (← get).stdin = before
  Shell.print ("ran " ++ toString (outcomes.countP Outcome.success) ++ "/" ++
    toString outcomes.length ++ " stdin-kept=" ++ (if kept then "true" else "false"))

/-- The command that a recipe describes. -/
def command (r : Recipe) : Command where
  name := r.name
  usage := r.usage
  description := r.description
  job d args := do
    Shell.printAll r.lines
    if r.showArgs then Shell.printAll (args.map fun a => "<" ++ a ++ ">")
    match r.tag with
    | some tag => Shell.printAll ((inputLines (← get).stdin).map (tag ++ ·))
    | none => pure ()
    match r.line with
    | some line => runAndReport d line
    | none => pure ()
    match r.failure with
    | some words => Job.fail words
    | none => pure ()

end Recipe

end SimTerm
