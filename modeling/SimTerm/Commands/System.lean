import SimTerm.Shell.Command

/-!
# System commands

Scripts, the clipboard, and starting over.

A script is a file of command lines; blank lines and comments are left out, the others are trimmed.
Each line is shown as the input and then run. Scripts may run scripts, at most `maxScriptDepth`
inside one another, and all together run at most `maxScriptLines` lines for one entered line.
-/

namespace SimTerm.Commands

/-- The line is a comment. -/
def isComment : List Char → Bool
  | '#' :: _ => true
  | ';' :: _ => true
  | '/' :: '/' :: _ => true
  | _ => false

/-- The lines of a script that are run. -/
def scriptLines (source : String) : List String :=
  (((Text.pieces '\n' source.toList).map Text.trim).filter fun cs => cs ≠ [] && !isComment cs).map
    String.ofList

/-- Run the lines of a script in order, each charged to what is left. -/
def runScript (d : Dispatcher) : List String → Job Unit
  | [] => pure ()
  | line :: lines => do
    if (← get).linesLeft = 0 then
      Job.fail ("script line budget of " ++ toString maxScriptLines ++ " exhausted")
    else
      modify fun e => { e with linesLeft := e.linesLeft - 1 }
      Shell.onSession (·.echo line)
      let _ ← (d.run line : Shell (List Outcome))
      runScript d lines

/-- Do a job one script deeper; the depth is the earlier one afterwards, however the job ends. -/
def oneDeeper (job : Job Unit) : Job Unit :=
  ExceptT.mk do
    modify fun e => { e with scriptDepth := e.scriptDepth + 1 }
    let result ← job.run
    modify fun e => { e with scriptDepth := e.scriptDepth - 1 }
    return result

/-- Run a script. -/
def script : Command where
  name := "cmd"
  usage := "cmd run <file>"
  description := "execute a script file, one command per line"
  job d args := do
    match args with
    | "run" :: file :: _ =>
      let path ← Shell.resolve file
      let e ← get
      let source ← Job.orFail ("no such file: " ++ path) (e.files.read? path)
      if maxScriptDepth ≤ e.scriptDepth then
        Job.fail ("scripts nested deeper than " ++ toString maxScriptDepth)
      else
        let lines := scriptLines source
        if maxScriptLines < lines.length then
          Job.fail ("script longer than " ++ toString maxScriptLines ++ " lines: " ++ path)
        else oneDeeper (runScript d lines)
    | _ => Job.fail "usage: cmd run <file>"

/-- Put the arguments, or what the stage before printed, into the clipboard. -/
def clip : Command where
  name := "clip"
  usage := "clip [text...]"
  description := "copy text to clipboard (or use stdin)"
  job _ args := do
    let e ← get
    let text := if args = [] then e.stdin else Text.join ' ' args
    if text = "" then Job.fail "missing text"
    match e.clipboard.write text with
    | .error failure => throw failure
    | .ok clipboard =>
      set { e with clipboard }
      Shell.print "copied to clipboard"

/-- Insert what is in the clipboard into the input. -/
def paste : Command where
  name := "paste"
  usage := "paste"
  description := "read clipboard and insert into current input buffer"
  job _ _ := do
    match (← get).clipboard.read with
    | .error failure => throw failure
    | .ok none => Job.fail "no clipboard data"
    | .ok (some text) => Shell.onSession (·.paste text)

/-- Boot the machine again. -/
def rebootMachine : Shell Unit :=
  modify fun e => { e with toMachine := e.toMachine.reboot }

/-- Reboot. -/
def reboot : Command where
  name := "reboot"
  usage := "reboot"
  description := "simulate reboot"
  job _ _ := rebootMachine

/-- Forget all files and bookmarks, and reboot. -/
def reset : Command where
  name := "reset"
  usage := "reset"
  description := "wipe Cedar state (filesystem, bookmarks) and reboot"
  job _ _ := do
    Shell.print "reset: wiping Cedar state..."
    Job.onFiles FileSystem.reset
    rebootMachine

/-- The system commands. -/
def system : List Command :=
  [script, clip, paste, reboot, reset]

end SimTerm.Commands
