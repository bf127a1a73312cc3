import SimTerm.Json.Quoted
import SimTerm.Json.Value

/-!
# Writing JSON

`render` writes a value without blanks: members and items in their order, separated by commas.
-/

namespace SimTerm.Json

/-- A literal; one without a text is written as a surrogate that stands alone. -/
def renderString : Option String → List Char
  | some text => quoted text.toList
  | none => ['"', '\\', 'u', 'd', '8', '0', '0', '"']

mutual
/-- The compact text of a value. -/
def render : Json → List Char
  | .null => ['n', 'u', 'l', 'l']
  | .bool true => ['t', 'r', 'u', 'e']
  | .bool false => ['f', 'a', 'l', 's', 'e']
  | .number n => n.render
  | .string text => renderString text
  | .array items => '[' :: renderItems items ++ [']']
  | .object members => '\x7b' :: renderMembers members ++ ['\x7d']

/-- The items with commas between them. -/
def renderItems : List Json → List Char
  | [] => []
  | [j] => j.render
  | j :: js => j.render ++ ',' :: renderItems js

/-- The members with commas between them. -/
def renderMembers : List (Option String × Json) → List Char
  | [] => []
  | [(name, j)] => renderString name ++ ':' :: j.render
  | (name, j) :: ms => renderString name ++ ':' :: j.render ++ ',' :: renderMembers ms
end

/-- The compact text of a value as a string. -/
def compact (j : Json) : String :=
  String.ofList j.render

end SimTerm.Json
