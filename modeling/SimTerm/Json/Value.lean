import SimTerm.Json.Numeral

/-!
# JSON values

A value is kept as it was written: members stay in their order, a repeated name is repeated, and a
numeral is what its digits say. A string literal whose escapes leave half of a surrogate pair alone
has no text; it is `none`, so that a reader who skips the value need not care.

`depth` counts nested arrays and objects. A value is *admitted* by a reader of stored text if it is
nested at most `maxDepth` deep and everything in it has a meaning.
-/

namespace SimTerm

/-- A JSON value. -/
inductive Json where
  | null
  | bool (b : Bool)
  | number (n : Json.Numeral)
  | string (text : Option String)
  | array (items : List Json)
  | object (members : List (Option String × Json))

namespace Json

/-- Nesting that a reader of stored text still accepts. -/
def maxDepth : Nat := 127

mutual
/-- How many arrays and objects are nested in one another. -/
def depth : Json → Nat
  | .array items => itemsDepth items + 1
  | .object members => membersDepth members + 1
  | _ => 0

/-- The greatest depth of the items. -/
def itemsDepth : List Json → Nat
  | [] => 0
  | j :: js => max j.depth (itemsDepth js)

/-- The greatest depth of the values of the members. -/
def membersDepth : List (Option String × Json) → Nat
  | [] => 0
  | (_, j) :: ms => max j.depth (membersDepth ms)
end

mutual
/-- Every string and every name has a text and every number is in range. -/
def legible : Json → Bool
  | .number n => n.isFinite
  | .string text => text.isSome
  | .array items => itemsLegible items
  | .object members => membersLegible members
  | _ => true

/-- Every item is legible. -/
def itemsLegible : List Json → Bool
  | [] => true
  | j :: js => j.legible && itemsLegible js

/-- Every name and every value of the members is legible. -/
def membersLegible : List (Option String × Json) → Bool
  | [] => true
  | (name, j) :: ms => name.isSome && j.legible && membersLegible ms
end

/-- A reader of stored text accepts the value. -/
def admitted (j : Json) : Bool :=
  j.depth ≤ maxDepth && j.legible

/-- The value of the only member called `name`: `none` if the name is repeated, `some none` if there
is no such member. -/
def member? (name : String) : List (Option String × Json) → Option (Option Json)
  | [] => some none
  | (n, j) :: ms =>
    if n = some name then
      if ms.any (·.1 = some name) then none else some (some j)
    else member? name ms

end Json

end SimTerm
