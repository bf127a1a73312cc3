import SimTerm.Entries
import SimTerm.Text.Pieces

/-!
# Paths

A path is text; what it names is its list of *segments*, the non-empty pieces between slashes.
Written from its segments a path is canonical: it starts with a slash, and has neither an empty
segment nor a slash at the end, the root alone excepted.

`resolve` turns what a user types into a path. In this order: nothing typed is the working
directory; `@mark` is the target of a bookmark, taken as it is, if there is such a bookmark; a
leading `#` is the root; a leading `~` is the home directory of the user; a path that starts with a
slash is written anew from its segments; and all else is walked from the working directory, where
`.` stays and `..` goes up, at the root going nowhere.
-/

namespace SimTerm.Path

open Text

/-- The segments of a text: its non-empty pieces between slashes. -/
def segmentsOf (text : List Char) : List String :=
  ((pieces '/' text).filter (· ≠ [])).map String.ofList

/-- The segments of a path. -/
def segments (path : String) : List String :=
  segmentsOf path.toList

/-- The path with the given segments; without any it is the root. -/
def ofSegments (segs : List String) : String :=
  String.ofList ('/' :: joined '/' (segs.map String.toList))

/-- The path of the entry `name` of the directory `dir`. -/
def child (dir name : String) : String :=
  if dir = "/" then "/" ++ name else dir ++ "/" ++ name

/-- The last segment, empty for the root. -/
def leaf (path : String) : String :=
  (segments path).getLast?.getD ""

/-- The home directory of a user. -/
def home (user : String) : String :=
  "/home/" ++ user

/-- A leading `#`, alone or before a slash, stands for the root. -/
def expandRoot : List Char → List Char
  | ['#'] => ['/']
  | '#' :: '/' :: rest => '/' :: rest
  | text => text

/-- A leading `~`, alone or before a slash, stands for the home directory. -/
def expandHome (user : String) : List Char → List Char
  | ['~'] => (home user).toList
  | '~' :: '/' :: rest => (home user).toList ++ '/' :: rest
  | text => text

/-- One step from the directory with segments `here`. -/
def step (here : List String) (segment : String) : List String :=
  if segment = "." then here
  else if segment = ".." then here.dropLast
  else here ++ [segment]

/-- The directory reached from `here` by taking the steps in order. -/
def walk (here steps : List String) : List String :=
  steps.foldl step here

/-- The target of the bookmark that `input` names with a leading `@`. -/
def bookmarkTarget? (bookmarks : Entries String) (input : String) : Option String :=
  match input.toList with
  | '@' :: name => Entries.get? (String.ofList name) bookmarks
  | _ => none

/-- The path that `input` means for a user who stands in `cwd`. -/
def resolve (bookmarks : Entries String) (user cwd input : String) : String :=
  if input = "" then cwd
  else
    match bookmarkTarget? bookmarks input with
    | some target => target
    | none =>
      match expandHome user (expandRoot input.toList) with
      | '/' :: rest => ofSegments (segmentsOf rest)
      | relative => ofSegments (walk (segments cwd) (segmentsOf relative))

end SimTerm.Path
