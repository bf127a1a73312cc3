/-!
# Cutting a text into pieces

`pieces sep` cuts a text at every occurrence of a separator. A text with `n` separators has `n + 1`
pieces, so the empty text has one piece, the empty one. `joined` puts the separator back, and the
two are inverse: `joined_pieces`.
-/

namespace SimTerm.Text

/-- Put one more element in front of the first piece. -/
def consFirst (c : α) : List (List α) → List (List α)
  | [] => [[c]]
  | p :: ps => (c :: p) :: ps

/-- The stretches between the separators, empty ones included. -/
def pieces (sep : Char) : List Char → List (List Char)
  | [] => [[]]
  | c :: cs => if c = sep then [] :: pieces sep cs else consFirst c (pieces sep cs)

/-- The pieces in order with one separator between neighbours. -/
def joined (sep : Char) (ps : List (List Char)) : List Char :=
  [sep].intercalate ps

/-- The pieces of a string as strings. -/
def split (sep : Char) (s : String) : List String :=
  (pieces sep s.toList).map String.ofList

/-- The strings in order with one separator between neighbours. -/
def join (sep : Char) (parts : List String) : String :=
  String.ofList (joined sep (parts.map String.toList))

/-- The lines of a text: what lies between its line feeds. -/
def lines (s : String) : List String :=
  split '\n' s

/-- The lines joined by line feeds, without one at the end. -/
def unlines (ls : List String) : String :=
  join '\n' ls

/-- A text has at least one piece, which may be empty. -/
theorem pieces_ne_nil (sep : Char) (cs : List Char) : pieces sep cs ≠ [] := by
  cases cs with
  | nil => simp [pieces]
  | cons c cs =>
    rw [pieces]
    split
    · simp
    · cases pieces sep cs <;> simp [consFirst]

theorem joined_cons_cons (sep : Char) (p q : List Char) (ps : List (List Char)) :
    joined sep (p :: q :: ps) = p ++ sep :: joined sep (q :: ps) := by
  simp [joined]

/-- A character in front of the first piece is one in front of the joined text. -/
theorem joined_consFirst (sep c : Char) {ps : List (List Char)} (h : ps ≠ []) :
    joined sep (consFirst c ps) = c :: joined sep ps := by
  match ps with
  | [] => exact absurd rfl h
  | [p] => simp [consFirst, joined]
  | p :: q :: ps => simp [consFirst, joined_cons_cons]

/-- Cutting loses nothing but the separators. -/
theorem joined_pieces (sep : Char) (cs : List Char) : joined sep (pieces sep cs) = cs := by
  induction cs with
  | nil => rfl
  | cons c cs ih =>
    rw [pieces]
    split
    · next h =>
      subst h
      obtain ⟨q, qs, hq⟩ := List.exists_cons_of_ne_nil (pieces_ne_nil c cs)
      rw [hq, joined_cons_cons, ← hq, ih]
      rfl
    · rw [joined_consFirst sep c (pieces_ne_nil sep cs), ih]

end SimTerm.Text
