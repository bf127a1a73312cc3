import SimTerm.Json.Printer
import SimTerm.Json.Reader
import SimTerm.Key

/-!
# Key presses as JSON

A press is written as an object of `key` and `modifiers`, the modifiers as an object of three
booleans. A plain key is its name and a character is an object with the one member `Char`.

When reading, either object may be an array of all its fields in order, unknown members are skipped
whatever they hold, and a plain key may also be an object whose one member is its name with `null`.
-/

namespace SimTerm

/-- The plain keys and their names. -/
def Key.names : List (String × Key) :=
  [("Enter", .enter), ("Backspace", .backspace), ("Delete", .delete), ("Left", .left),
    ("Right", .right), ("Up", .up), ("Down", .down), ("Home", .home), ("End", .end)]

/-- The plain key with this name. -/
def Key.ofName? (name : String) : Option Key :=
  (Key.names.find? (·.1 = name)).map (·.2)

/-- The key as JSON. -/
def Key.toJson : Key → Json
  | .char c => .object [(some "Char", .string (some (String.ofList [c])))]
  | key => .string ((Key.names.find? (·.2 = key)).map (·.1))

/-- The key that a value describes. -/
def Key.ofJson? : Json → Option Key
  | .string (some name) => Key.ofName? name
  | .object [(some "Char", .string (some text))] =>
    match text.toList with
    | [c] => some (.char c)
    | _ => none
  | .object [(some name, .null)] => Key.ofName? name
  | _ => none

/-- A boolean. -/
def Json.bool? : Json → Option Bool
  | .bool b => some b
  | _ => none

/-- The value of a member that must stand exactly once, among members whose names all have a
text. -/
def Json.required? (members : List (Option String × Json)) (name : String) : Option Json :=
  if members.all (·.1.isSome) then (Json.member? name members).join else none

/-- The modifiers as JSON. -/
def Modifiers.toJson (m : Modifiers) : Json :=
  .object [(some "ctrl", .bool m.ctrl), (some "alt", .bool m.alt), (some "meta", .bool m.metaKey)]

/-- The modifiers whose three fields are these values. -/
def Modifiers.ofFields? (ctrl alt metaKey : Json) : Option Modifiers := do
  some ⟨← ctrl.bool?, ← alt.bool?, ← metaKey.bool?⟩

/-- The modifiers that a value describes. -/
def Modifiers.ofJson? : Json → Option Modifiers
  | .object ms => do
    ofFields? (← Json.required? ms "ctrl") (← Json.required? ms "alt") (← Json.required? ms "meta")
  | .array [ctrl, alt, metaKey] => ofFields? ctrl alt metaKey
  | _ => none

/-- The press as JSON. -/
def KeyPress.toJson (p : KeyPress) : Json :=
  .object [(some "key", p.key.toJson), (some "modifiers", p.modifiers.toJson)]

/-- The press that a value describes. -/
def KeyPress.ofJson? : Json → Option KeyPress
  | .object ms => do
    let key ← Key.ofJson? (← Json.required? ms "key")
    let modifiers ← Modifiers.ofJson? (← Json.required? ms "modifiers")
    some ⟨key, modifiers⟩
  | .array [key, modifiers] => do some ⟨← Key.ofJson? key, ← Modifiers.ofJson? modifiers⟩
  | _ => none

/-- The press that a text describes. -/
def KeyPress.read? (text : String) : Option KeyPress :=
  (Json.read? text).bind KeyPress.ofJson?

end SimTerm
