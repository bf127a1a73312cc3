import SimTerm.Entries

/-!
# TOML tables

A table is begun by a header, by standing in the path of a header, by standing in the path of a
dotted key, or by braces. How it was begun decides what may still be added: braces are complete, a
header may complete a table that so far stood in paths of headers only, dotted keys add to tables
that dotted keys began, and nothing is defined twice. A header in double brackets adds an element to
an array of tables, and a path that meets such an array goes on in its last element.
-/

namespace SimTerm.Toml

/-- How a table was begun. -/
inductive Origin where
  | header
  | path
  | dotted
  | braces
deriving DecidableEq, Repr

/-- What stands under a key. Values that no setting can be are not kept. -/
inductive Item where
  | text (s : String)
  | integer (n : Int)
  | boolean (b : Bool)
  | other
  | table (origin : Origin) (entries : List (String × Item))
  /-- An array of tables, each begun by a header. -/
  | tables (elements : List (List (String × Item)))

namespace Item

/-- Change the table that a path leads to, beginning the tables that are not there yet. A dotted
path may not enter a table that has a header. -/
def within (dotted : Bool) (change : Origin → Entries Item → Option (Entries Item)) :
    List String → Origin → Entries Item → Option (Entries Item)
  | [], origin, entries => change origin entries
  | key :: keys, _, entries =>
    match Entries.get? key entries with
    | none => do
      let origin := if dotted then .dotted else .path
      let inner ← within dotted change keys origin []
      some (Entries.insert key (.table origin inner) entries)
    | some (.table origin inner) =>
      if origin = .braces || (dotted && origin = .header) then none
      else do
        let inner ← within dotted change keys origin inner
        some (Entries.insert key (.table origin inner) entries)
    | some (.tables elements) => do
      -- the elements before the last one are complete
      let last ← elements.getLast?
      let last ← within dotted change keys .header last
      some (Entries.insert key (.tables (elements.dropLast ++ [last])) entries)
    | some _ => none

/-- Put a value under a new key; a dotted key puts it into a table of its own kind only. -/
def put (dotted : Bool) (key : String) (value : Item) (origin : Origin) (entries : Entries Item) :
    Option (Entries Item) :=
  if (origin = .dotted) ≠ dotted then none
  else
    match Entries.get? key entries with
    | some _ => none
    | none => some (Entries.insert key value entries)

/-- Put a value under the key that ends a dotted path. -/
def define (keys : List String) (value : Item) (origin : Origin) (entries : Entries Item) :
    Option (Entries Item) := do
  let key ← keys.getLast?
  let path := keys.dropLast
  within true (put (path ≠ []) key value) path origin entries

/-- Begin the table that a header names. -/
def beginTable (keys : List String) (entries : Entries Item) : Option (Entries Item) := do
  let key ← keys.getLast?
  let start (_ : Origin) (es : Entries Item) : Option (Entries Item) :=
    match Entries.get? key es with
    | none => some (Entries.insert key (.table .header []) es)
    | some (.table .path inner) => some (Entries.insert key (.table .header inner) es)
    | some _ => none
  within false start keys.dropLast .header entries

/-- Begin the next element of the array that a header in double brackets names. -/
def beginElement (keys : List String) (entries : Entries Item) : Option (Entries Item) := do
  let key ← keys.getLast?
  let start (_ : Origin) (es : Entries Item) : Option (Entries Item) :=
    match Entries.get? key es with
    | none => some (Entries.insert key (.tables [[]]) es)
    | some (.tables elements) => some (Entries.insert key (.tables (elements ++ [[]])) es)
    | some _ => none
  within false start keys.dropLast .header entries

end Item

/-- A document being read: its entries, and the path of the table that the last header began. -/
structure Document where
  entries : Entries Item := []
  here : List String := []

namespace Document

/-- Add a key and its value to the table begun last. -/
def define (d : Document) (keys : List String) (value : Item) : Option Document := do
  let entries ← Item.within false (Item.define keys value) d.here .header d.entries
  some { d with entries }

/-- Take a header. -/
def header (d : Document) (keys : List String) : Option Document := do
  some { entries := ← Item.beginTable keys d.entries, here := keys }

/-- Take a header in double brackets. -/
def elementHeader (d : Document) (keys : List String) : Option Document := do
  some { entries := ← Item.beginElement keys d.entries, here := keys }

end Document

end SimTerm.Toml
