import SimTerm.Entries
import SimTerm.Failure

/-!
# Storage in a directory

A keyed storage may keep each text in a file of one directory of the host. The name of the file is
the key with every character outside ASCII letters, digits, `-` and `_` replaced by `_`, and `.json`
behind it: no key names a file outside the directory, and keys with the same replaced form share a
file.

The host refuses names above 255 bytes and reading or writing a directory as a file; what is read
has to be UTF-8. All else succeeds. A storage remembers nothing but which directory it is in.
-/

namespace SimTerm

/-- What a name in the directory stands for. -/
inductive HostEntry where
  | file (bytes : ByteArray)
  | directory

/-- A directory of the host. -/
structure HostDirectory where
  entries : Entries HostEntry := []

/-- Why the host refused a file operation. -/
inductive HostError where
  | isADirectory
  | nameTooLong
  | notUtf8
deriving DecidableEq, Repr

/-- The wording of the host. -/
def HostError.message : HostError → String
  | .isADirectory => "Is a directory (os error 21)"
  | .nameTooLong => "File name too long (os error 36)"
  | .notUtf8 => "stream did not contain valid UTF-8"

/-- The wording of a failed storage call: the key and what the host said. -/
def HostError.failure (key : String) (e : HostError) : Failure :=
  .storage (key ++ ": " ++ e.message)

namespace HostDirectory

/-- The character may stand in a file name as it is. -/
def isPlain (c : Char) : Bool :=
  c.isAlphanum || c == '-' || c == '_'

/-- The key with every other character replaced. -/
def plainKey (key : String) : String :=
  String.ofList (key.toList.map fun c => if isPlain c then c else '_')

/-- The name of the file of a key. -/
def fileName (key : String) : String :=
  plainKey key ++ ".json"

/-- The greatest length of a file name in bytes. -/
def maxNameBytes : Nat := 255

/-- The host takes the name. -/
def nameFits (name : String) : Bool :=
  name.utf8ByteSize ≤ maxNameBytes

/-- Use a directory for texts; it is made if there is none. -/
def opened (d : Option HostDirectory) : HostDirectory :=
  d.getD {}

/-- The names in the directory, in order. -/
def names (d : HostDirectory) : List String :=
  Entries.names d.entries

/-- Read the text of a key. -/
def load (d : HostDirectory) (key : String) : Except Failure (Option String) :=
  let name := fileName key
  if !nameFits name then .error (HostError.nameTooLong.failure key)
  else
    match d.entries.get? name with
    | none => .ok none
    | some .directory => .error (HostError.isADirectory.failure key)
    | some (.file bytes) =>
      match String.fromUTF8? bytes with
      | some text => .ok (some text)
      | none => .error (HostError.notUtf8.failure key)

/-- Write the text of a key. -/
def save (d : HostDirectory) (key text : String) : Except Failure HostDirectory :=
  let name := fileName key
  if !nameFits name then .error (HostError.nameTooLong.failure key)
  else
    match d.entries.get? name with
    | some .directory => .error (HostError.isADirectory.failure key)
    | _ => .ok ⟨d.entries.insert name (.file text.toUTF8)⟩

/-- Remove the text of a key, if there is one. -/
def remove (d : HostDirectory) (key : String) : Except Failure HostDirectory :=
  let name := fileName key
  if !nameFits name then .error (HostError.nameTooLong.failure key)
  else
    match d.entries.get? name with
    | some .directory => .error (HostError.isADirectory.failure key)
    | _ => .ok ⟨d.entries.erase name⟩

end HostDirectory

end SimTerm
