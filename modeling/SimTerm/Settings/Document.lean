import SimTerm.Settings
import SimTerm.Toml.Reader

/-!
# Settings as a document

Settings are read from a TOML document. A key that is missing leaves its setting as it is by
default; a key that is no setting is ignored, whatever it holds. A setting of the wrong type, or a
negative number, makes the whole document useless, as does a document that is none.
-/

namespace SimTerm

/-- Why there are no settings. -/
inductive SettingsError where
  /-- There is no such file, or it holds no text. -/
  | unreadable
  /-- The text is no document of settings. -/
  | malformed
deriving DecidableEq, Repr

namespace Settings

open Toml (Item)

/-- A text. -/
def text? : Item → Option String
  | .text s => some s
  | _ => none

/-- A number that is not negative. -/
def number? : Item → Option Nat
  | .integer n => if 0 ≤ n then some n.toNat else none
  | _ => none

/-- A truth value. -/
def boolean? : Item → Option Bool
  | .boolean b => some b
  | _ => none

/-- The value under a key, or `default` if there is none; a value of the wrong type is refused. -/
def setting? (read : Item → Option α) (default : α) (key : String) (es : Entries Item) : Option α :=
  match Entries.get? key es with
  | none => some default
  | some item => read item

/-- The settings that the entries of a document give. -/
def ofEntries? (es : Entries Item) : Option Settings := do
  let d : Settings := {}
  let user ← setting? text? d.user "user" es
  let host ← setting? text? d.host "host" es
  let promptTail ← setting? text? d.promptTail "prompt_tail" es
  let startDir ← setting? text? d.startDir "start_cwd" es
  let rows ← setting? number? d.rows "rows" es
  let cols ← setting? number? d.cols "cols" es
  let execDelay ← setting? number? d.execDelay "exec_delay_ms" es
  let execDelayJitter ← setting? number? d.execDelayJitter "exec_delay_jitter_ms" es
  let bareTree ← setting? boolean? d.bareTree "skip_default_dirs" es
  let stateDir ← setting? (fun item => (text? item).map some) d.stateDir "state_dir" es
  let boot ← setting? boolean? d.boot "boot" es
  some { user, host, promptTail, startDir, rows, cols, execDelay, execDelayJitter, bareTree,
         stateDir, boot }

/-- The settings that a text gives. -/
def ofText? (text : String) : Option Settings :=
  (Toml.read? text).bind ofEntries?

/-- The settings that the bytes of a file give; `none` stands for a file that is not there. -/
def ofFile (bytes : Option ByteArray) : Except SettingsError Settings :=
  match bytes.bind String.fromUTF8? with
  | none => .error .unreadable
  | some text =>
    match ofText? text with
    | some s => .ok s
    | none => .error .malformed

end Settings

end SimTerm
