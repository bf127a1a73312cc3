import Std.Time.Zoned
import SimTerm.Boot.Log
import SimTerm.Display
import SimTerm.Scene
import SimTerm.Settings.Document
import SimTerm.Storage.Directory
import SimTerm.Terminal

/-!
# The command line

Runs a terminal on standard input and output: every line that is read is typed and submitted, and
every frame is drawn with escape codes. The settings stand in the file that the first argument
names, or else the environment; without either the terminal has its default settings. A state
directory keeps each stored text in a file of its own.
-/

namespace SimTerm.CommandLine

/-- The variable of the environment that names the file of settings. -/
def settingsVariable : String := "CEDAR_CONFIG"

/-- The variable of the environment that names the time zone. -/
def zoneVariable : String := "TZ"

/-- The time between two blinks of the caret, in milliseconds. -/
def blinkPeriod : Nat := 520

/-- The time between two looks for a line, in milliseconds. -/
def lookPeriod : Nat := 20

/-- The keys under which a terminal stores its state. -/
def storedKeys : List String :=
  [treeKey, bookmarksKey]

/-- The file of a key. -/
def statePath (dir key : String) : String :=
  dir ++ "/" ++ HostDirectory.fileName key

/-- What a user reads when there are no settings. -/
def settingsMessage : SettingsError → String
  | .unreadable => "Error: the settings cannot be read"
  | .malformed => "Error: the settings are malformed"

/-- The bytes of a file, if there is one. -/
def bytes? (path : String) : IO (Option ByteArray) := do
  try
    return some (← IO.FS.readBinFile path)
  catch
  | .noFileOrDirectory .. => return none
  | e => throw e

/-- The settings that the arguments or the environment ask for. -/
def loadSettings (args : List String) : IO (Except SettingsError Settings) := do
  let path? ← match args with
    | path :: _ => pure (some path)
    | [] => IO.getEnv settingsVariable
  match path? with
  | none => return .ok {}
  | some path =>
    try
      return Settings.ofFile (← bytes? path)
    catch _ =>
      return .error .unreadable

/-- The milliseconds since 1970. -/
def currentMillis : IO Millis := do
  let t ← Std.Time.Timestamp.now
  return UInt64.ofNat t.toMillisecondsSinceUnixEpoch.val.toNat

/-- The time zone of the host, or universal time where it does not tell. -/
def hostZone : IO Calendar.Zone := do
  try
    let rules ← match ← IO.getEnv zoneVariable with
      | some name => Std.Time.Database.defaultGetZoneRules name
      | none => Std.Time.Database.defaultGetLocalZoneRules
    return { offset := fun millis =>
      (rules.timezoneAt (.ofMillisecondsSinceUnixEpoch (.ofInt millis))).offset.second.val }
  catch _ =>
    return Calendar.Zone.utc

/-- A number that nobody can foretell. -/
def randomWord : IO UInt64 := do
  let bytes ← IO.getRandomBytes 8
  return bytes.foldl (fun n b => n * 256 + b.toUInt64) 0

/-- The text that a file of the state directory holds, if there is such a file, or why it has
none. -/
def loadText (dir key : String) : IO (Except String (Option String)) := do
  try
    match ← bytes? (statePath dir key) with
    | none => return .ok none
    | some bytes =>
      match String.fromUTF8? bytes with
      | some text => return .ok (some text)
      | none => return .error HostError.notUtf8.message
  catch e =>
    return .error (toString e)

/-- A storage with what the state directory holds; it refuses to load what could not be read. -/
def openStorage : Option String → IO Storage
  | none => return {}
  | some dir => do
    IO.FS.createDirAll dir
    let mut texts : Entries String := []
    let mut unread : List (String × String) := []
    for key in storedKeys do
      match ← loadText dir key with
      | .ok none => pure ()
      | .ok (some text) => texts := texts.insert key text
      | .error words => unread := (key, key ++ ": " ++ words) :: unread
    let refused := unread
    return { texts, refusal := fun call key _ => if call = .load then refused.lookup key else none }

/-- Write what has changed between two states of a storage into the state directory. -/
def writeBack (stateDir : Option String) (before after : Storage) : IO Unit := do
  let some dir := stateDir | return
  for key in storedKeys do
    if before.text? key ≠ after.text? key then
      try
        match after.text? key with
        | some text => IO.FS.writeFile (statePath dir key) text
        | none => IO.FS.removeFile (statePath dir key)
      catch e =>
        IO.eprintln (key ++ ": " ++ toString e)

/-- Draw a frame. -/
def draw (d : Display) (rows : Grid) : IO Display := do
  let out ← IO.getStdout
  try
    out.putStr (String.ofList (d.pending rows))
    out.flush
  catch e =>
    IO.eprintln ("Failed to draw frame: " ++ toString e)
  return d.present rows true

/-- Draw the frames in their order, and wait where the machine paused. -/
def play (d : Display) (scenes : List Scene) : IO Display :=
  scenes.foldlM
    (fun d scene =>
      match scene with
      | .frame rows => draw d rows
      | .pause length => do
        IO.sleep (UInt32.ofNat (min length.toNat (UInt32.size - 1)))
        return d)
    d

/-- A terminal, the display it is drawn on, and where its state is kept. -/
structure Run where
  terminal : Terminal
  display : Display
  stateDir : Option String

namespace Run

/-- Give the terminal the time of day, a boot log of its own, and the random addition to a pause. -/
def fresh (r : Run) : IO Run := do
  let now ← currentMillis
  let seed ← randomWord
  let jitter := (← randomWord).toNat % (r.terminal.settings.execDelayJitter + 1)
  let m := r.terminal.machine
  let boot := BootLog.sequence { seed, style := .wall, moment := now.toNat, zone := m.zone }
  let machine := { m with files := { m.files with now }, boot }
  return { r with terminal := { r.terminal with machine, jitter } }

/-- Let the terminal do something, show it, and keep the state. -/
def act (r : Run) (deed : Terminal → Terminal) : IO Run := do
  let r ← r.fresh
  let t := deed r.terminal
  writeBack r.stateDir r.terminal.machine.files.storage t.machine.files.storage
  let display ← play r.display t.machine.scenes
  return { r with terminal := { t with machine := t.machine.unseen }, display }

/-- A line without its end, a line feed with or without a carriage return before it. -/
def withoutEnd (line : String) : String :=
  match line.toList.reverse with
  | '\n' :: '\r' :: cs => String.ofList cs.reverse
  | '\n' :: cs => String.ofList cs.reverse
  | _ => line

/-- Let the caret blink until a line is there. -/
partial def await (r : Run) (line : Task (Except IO.Error String)) (waited : Nat) :
    IO (String × Run) := do
  if ← IO.hasFinished line then
    return (← IO.ofExcept line.get, r)
  else
    IO.sleep (UInt32.ofNat lookPeriod)
    if waited < blinkPeriod then await r line (waited + lookPeriod)
    else await (← r.act Terminal.blink) line 0

/-- Run every line until the input ends. -/
partial def lines (r : Run) : IO Unit := do
  let stdin ← IO.getStdin
  let (line, r) ← r.await (← IO.asTask stdin.getLine) 0
  unless line.isEmpty do
    lines (← r.act fun t => (t.runLine (withoutEnd line)).2)

end Run

/-- Run a terminal with these settings. -/
def run (settings : Settings) : IO Unit := do
  let storage ← openStorage settings.stateDir
  let terminal :=
    Terminal.ofSettings settings storage (← currentMillis) (.holding none) BootSequence.silent [] []
      (← hostZone)
  writeBack settings.stateDir storage terminal.machine.files.storage
  let start : Run := { terminal, display := {}, stateDir := settings.stateDir }
  (← start.act Terminal.powerOn).lines

end SimTerm.CommandLine

/-- Run a terminal on standard input and output. -/
def main (args : List String) : IO UInt32 := do
  match ← SimTerm.CommandLine.loadSettings args with
  | .ok settings =>
    SimTerm.CommandLine.run settings
    return 0
  | .error e =>
    IO.eprintln (SimTerm.CommandLine.settingsMessage e)
    return 1
