import SimTerm.Entries
import SimTerm.Failure

/-!
# Keyed storage

A storage keeps texts under keys. It may refuse any call; which ones, and with what words, is its
`refusal`, a function of the kind of call, the key, and the number of calls of that kind before. A
refused call leaves the texts as they were.

The `journal` lists every text that was saved, the latest first, so that what a storage held between
two calls can be told afterwards.
-/

namespace SimTerm

/-- The calls that a storage answers. -/
inductive StorageCall where
  | load
  | save
  | remove
deriving DecidableEq, Repr

/-- How often a storage has been called. -/
structure Tally where
  loads : Nat := 0
  saves : Nat := 0
  removes : Nat := 0
deriving DecidableEq, Repr

/-- The number of calls of one kind. -/
def Tally.of (t : Tally) : StorageCall → Nat
  | .load => t.loads
  | .save => t.saves
  | .remove => t.removes

/-- One more call of this kind. -/
def Tally.add (t : Tally) : StorageCall → Tally
  | .load => { t with loads := t.loads + 1 }
  | .save => { t with saves := t.saves + 1 }
  | .remove => { t with removes := t.removes + 1 }

/-- Texts under keys. -/
structure Storage where
  texts : Entries String := []
  refusal : StorageCall → String → Nat → Option String := fun _ _ _ => none
  tally : Tally := {}
  journal : List (String × String) := []

namespace Storage

/-- The words with which the next call of this kind is refused, if it is. -/
def refused? (s : Storage) (call : StorageCall) (key : String) : Option String :=
  s.refusal call key (s.tally.of call)

/-- Count a call. -/
def counted (s : Storage) (call : StorageCall) : Storage :=
  { s with tally := s.tally.add call }

/-- The text under a key. -/
def text? (s : Storage) (key : String) : Option String :=
  s.texts.get? key

/-- Put a text under a key without a call. -/
def put (s : Storage) (key text : String) : Storage :=
  { s with texts := s.texts.insert key text }

/-- Drop the text under a key without a call. -/
def drop (s : Storage) (key : String) : Storage :=
  { s with texts := s.texts.erase key }

/-- Ask for the text under a key. -/
def load (s : Storage) (key : String) : Except Failure (Option String) × Storage :=
  match s.refused? .load key with
  | some words => (.error (.storage words), s.counted .load)
  | none => (.ok (s.text? key), s.counted .load)

/-- Store a text under a key in the place of what is there. -/
def save (s : Storage) (key text : String) : Except Failure Unit × Storage :=
  match s.refused? .save key with
  | some words => (.error (.storage words), s.counted .save)
  | none =>
    (.ok (), { (s.put key text).counted .save with journal := (key, text) :: s.journal })

/-- Remove the text under a key, if there is one. -/
def remove (s : Storage) (key : String) : Except Failure Unit × Storage :=
  match s.refused? .remove key with
  | some words => (.error (.storage words), s.counted .remove)
  | none => (.ok (), (s.drop key).counted .remove)

end Storage

end SimTerm
