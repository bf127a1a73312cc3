import Mathlib.Logic.Function.Basic
import SimTerm.Failure
import SimTerm.Node
import SimTerm.Path

/-!
# Flat maps of paths

A `PathMap` says what stands at each path: a file with its content or a directory, and its moments,
but nothing of what is below it. The changes of a tree are described here a second time, on such a
map and without any tree. A change looks at its path, at the parent of it and at the names below it.
Then it is refused, or it changes what stands at that one path (`Function.update`); a copy or a move
changes whole branches (`graft`).
-/

namespace SimTerm

/-- What stands at a path: a file with its content or a directory, and its moments. -/
inductive Record where
  | file (content : String) (stamps : Stamps)
  | dir (stamps : Stamps)
deriving DecidableEq, Repr

namespace Record

/-- Whether it is a file or a directory. -/
def kind : Record → Kind
  | .file .. => .file
  | .dir _ => .dir

/-- The content of a file. -/
def content? : Record → Option String
  | .file content _ => some content
  | .dir _ => none

/-- The kind and the content, which is all but the moments. -/
def body (r : Record) : Kind × Option String :=
  (r.kind, r.content?)

/-- Modified at `now`, created when it was. -/
def touched (now : Millis) : Record → Record
  | .file content s => .file content ⟨s.created, now⟩
  | .dir s => .dir ⟨s.created, now⟩

/-- Created and modified at `now`. -/
def renewed (now : Millis) : Record → Record
  | .file content _ => .file content ⟨now, now⟩
  | .dir _ => .dir ⟨now, now⟩

/-- A copy has the kind and the content of what was copied. -/
@[simp] theorem body_renewed (now : Millis) (r : Record) : (r.renewed now).body = r.body := by
  cases r <;> rfl

end Record

/-- What stands at each path. -/
abbrev PathMap := List String → Option Record

namespace PathMap

/-! ## Branches -/

/-- Nothing stands anywhere. -/
def nowhere : PathMap := fun _ => none

/-- A directory stands at the path. -/
def isDirAt (m : PathMap) (path : List String) : Bool :=
  match m path with
  | some (.dir _) => true
  | _ => false

/-- Something stands directly below the path. -/
def HasEntry (m : PathMap) (path : List String) : Prop :=
  ∃ name, m (path ++ [name]) ≠ none

/-- The map with another branch at and below a path. -/
def graft (m : PathMap) (path : List String) (branch : PathMap) : PathMap := fun p =>
  if path <+: p then branch (p.drop path.length) else m p

/-- Below the path of a graft the map has the branch. -/
theorem graft_append (m : PathMap) (path : List String) (branch : PathMap) (rest : List String) :
    m.graft path branch (path ++ rest) = branch rest := by
  rw [graft, if_pos (List.prefix_append path rest), List.drop_left]

/-- Everywhere else the map is as it was. -/
theorem graft_of_not_prefix {path p : List String} (h : ¬ path <+: p) (m branch : PathMap) :
    m.graft path branch p = m p :=
  if_neg h

/-- A map is a graft if it has the branch at the path and is as before everywhere else. -/
theorem eq_graft {m after branch : PathMap} {path : List String}
    (hat : ∀ rest, after (path ++ rest) = branch rest)
    (helse : ∀ p, ¬ path <+: p → after p = m p) : after = m.graft path branch := by
  funext p
  by_cases hp : path <+: p
  · obtain ⟨rest, rfl⟩ := hp
    rw [hat, graft_append]
  · rw [helse p hp, graft_of_not_prefix hp]

/-- A branch that is new only at its root is a change at one path. -/
theorem graft_eq_update {m branch : PathMap} {path : List String}
    (h : ∀ rest, rest ≠ [] → branch rest = m (path ++ rest)) :
    m.graft path branch = Function.update m path (branch []) := by
  symm
  apply eq_graft
  · intro rest
    by_cases hrest : rest = []
    · subst hrest
      rw [List.append_nil, Function.update_self]
    · have hne : path ++ rest ≠ path := fun heq => hrest (List.append_right_eq_self.1 heq)
      rw [Function.update_of_ne hne, h rest hrest]
  · intro p hp
    have hne : p ≠ path := fun heq => hp (heq ▸ List.prefix_refl path)
    rw [Function.update_of_ne hne]

/-- Paths below two branches that are apart are apart. -/
theorem not_prefix_append {src dst : List String} (hsrc : ¬ src <+: dst) (hdst : ¬ dst <+: src)
    (rest : List String) : ¬ src <+: dst ++ rest := by
  intro h
  rcases List.prefix_or_prefix_of_prefix h (List.prefix_append dst rest) with hpre | hpre
  · exact hsrc hpre
  · exact hdst hpre

/-! ## Changes -/

/-- Write a file. One that is there keeps the moment it was created. -/
def write (now : Millis) (path : List String) (content : String) (m : PathMap) :
    Except FileError PathMap :=
  if path = [] then .error .isADirectory
  else if m.isDirAt path.dropLast then
    match m path with
    | some (.dir _) => .error .isADirectory
    | some (.file _ s) => .ok (Function.update m path (some (.file content ⟨s.created, now⟩)))
    | none => .ok (Function.update m path (some (.file content ⟨now, now⟩)))
  else .error .noSuchDirectory

/-- Make a directory where nothing stands. -/
def makeDir (now : Millis) (path : List String) (m : PathMap) : Except FileError PathMap :=
  if path = [] then .error .alreadyExists
  else if m.isDirAt path.dropLast then
    match m path with
    | some _ => .error .alreadyExists
    | none => .ok (Function.update m path (some (.dir ⟨now, now⟩)))
  else .error .noSuchDirectory

open Classical in
/-- Remove a directory with nothing below it. -/
noncomputable def removeDir (path : List String) (m : PathMap) : Except FileError PathMap :=
  match m path with
  | none => .error .noSuchDirectory
  | some (.file ..) => .error .notADirectory
  | some (.dir _) =>
    if m.HasEntry path then .error .notEmpty
    else if path = [] then .error .removeRoot
    else .ok (Function.update m path none)

/-- Remove a file. -/
def removeFile (path : List String) (m : PathMap) : Except FileError PathMap :=
  match m path with
  | none => .error .noSuchFile
  | some (.dir _) => .error .isADirectory
  | some (.file ..) => .ok (Function.update m path none)

/-- Mark what stands at the path as modified, or write an empty file. -/
def touch (now : Millis) (path : List String) (m : PathMap) : Except FileError PathMap :=
  match m path with
  | some r => .ok (Function.update m path (some (r.touched now)))
  | none => m.write now path ""

/-- Put a new copy of the branch at `source` in the place of whatever is at the path `dest`. -/
def copy (now : Millis) (source : List String) (dest : String) (m : PathMap) :
    Except FileError PathMap :=
  match m source with
  | none => .error .noSuchSource
  | some _ =>
    if Path.segments dest = [] then .error (.invalidPath dest)
    else if m.isDirAt (Path.segments dest).dropLast then
      .ok (m.graft (Path.segments dest) fun rest =>
        (m (source ++ rest)).map (Record.renewed now))
    else .error .noSuchDestination

/-- A file can be written where its parent is a directory and it is none itself. -/
theorem exists_write {m : PathMap} {path : List String} (hparent : m.isDirAt path.dropLast = true)
    (hnotDir : m.isDirAt path = false) (now : Millis) (content : String) :
    ∃ stamps, m.write now path content =
      .ok (Function.update m path (some (.file content stamps))) := by
  have hne : path ≠ [] := by
    rintro rfl
    rw [List.dropLast_nil, hnotDir] at hparent
    cases hparent
  rw [write, if_neg hne, if_pos hparent]
  cases hthere : m path with
  | none => exact ⟨_, rfl⟩
  | some r =>
    cases r with
    | file old s => exact ⟨_, rfl⟩
    | dir s => simp [isDirAt, hthere] at hnotDir

/-- A copy with a source is refused for its destination only, and otherwise grafts the renewed
branch. -/
theorem copy_of_source {m : PathMap} {source : List String} (h : m source ≠ none) (now : Millis)
    (dest : String) :
    m.copy now source dest =
      if Path.segments dest = [] then .error (.invalidPath dest)
      else if m.isDirAt (Path.segments dest).dropLast then
        .ok (m.graft (Path.segments dest) fun rest =>
          (m (source ++ rest)).map (Record.renewed now))
      else .error .noSuchDestination := by
  obtain ⟨r, hr⟩ := Option.ne_none_iff_exists'.1 h
  rw [copy, hr]

/-- A copy that is made grafts the branch at the source, made new. -/
theorem eq_graft_of_copy {m after : PathMap} {now : Millis} {source : List String} {dest : String}
    (h : m.copy now source dest = .ok after) :
    after = m.graft (Path.segments dest) fun rest =>
      (m (source ++ rest)).map (Record.renewed now) := by
  unfold copy at h
  split at h
  · cases h
  · split at h
    · cases h
    · split at h
      · exact (Except.ok.inj h).symm
      · cases h

/-- Copy the branch at the path `source` and then take it away there. A branch stays where it is when
it is moved to itself, and cannot be moved into itself or onto what it is in. -/
def move (now : Millis) (source dest : String) (m : PathMap) : Except FileError PathMap :=
  let src := Path.segments source
  let dst := Path.segments dest
  if src = dst then
    match m src with
    | some _ => .ok m
    | none => .error .noSuchSource
  else if src <+: dst ∨ dst <+: src then .error (.invalidPath dest)
  else (m.copy now src dest).map fun copied => copied.graft src nowhere

/-- A move that is made is one to where the branch is, or a copy whose source is taken away. -/
theorem move_ok_cases {m after : PathMap} {now : Millis} {source dest : String}
    (h : m.move now source dest = .ok after) :
    after = m ∨ ∃ copied, m.copy now (Path.segments source) dest = .ok copied ∧
      after = copied.graft (Path.segments source) nowhere := by
  unfold move at h
  dsimp only at h
  split at h
  · split at h
    · exact Or.inl (Except.ok.inj h).symm
    · cases h
  · split at h
    · cases h
    · cases hcopy : m.copy now (Path.segments source) dest with
      | error cause =>
        rw [hcopy] at h
        cases h
      | ok copied =>
        rw [hcopy] at h
        exact Or.inr ⟨copied, rfl, (Except.ok.inj h).symm⟩

end PathMap

end SimTerm
