import Mathlib.Data.Nat.PSub
import SimTerm.Proofs.Screen

/-!
# A screen stays within its grid

The operations on a screen once more, this time with an eye on the rows they touch. `setRow?` and
its like come to nothing where a row is touched that the grid does not have, where a difference
would fall below zero, and where a grid is shown that has not the size the screen says. On a shaped
screen none of this happens: a checked operation has the result of the plain one, which is shaped
again (`Drawn.step`).
-/

namespace SimTerm

/-! ## Results that were checked -/

/-- The checked result is the plain one, and has the property. -/
structure Passes {α : Type} (P : α → Prop) (checked : Option α) (plain : α) : Prop where
  eq : checked = some plain
  prop : P plain

/-- One checked operation after the other. -/
theorem Passes.bind {α β : Type} {P : α → Prop} {Q : β → Prop} {checked : Option α} {plain : α}
    {next : α → Option β} {last : β} (h : Passes P checked plain)
    (hnext : P plain → Passes Q (next plain) last) : Passes Q (checked >>= next) last := by
  rw [h.eq]
  exact hnext h.prop

/-- Checked steps, each keeping what the next one needs. -/
theorem Passes.foldlM {α β : Type} {P : α → Prop} {step? : α → β → Option α} {step : α → β → α}
    (hstep : ∀ a b, P a → Passes P (step? a b) (step a b)) (bs : List β) {a : α} (ha : P a) :
    Passes P (bs.foldlM step? a) (bs.foldl step a) := by
  induction bs generalizing a with
  | nil => exact ⟨rfl, ha⟩
  | cons b bs ih =>
    rw [List.foldlM_cons, List.foldl_cons]
    exact (hstep a b ha).bind ih

/-! ## The checked operations -/

/-- The text cut to the width, and padded by what is missing. -/
def Row.fit? (text : List Char) (cols : Nat) : Option Row := do
  let cut := text.take cols
  let missing ← Nat.psub cols cut.length
  return cut ++ blank missing

/-- Fitting a text never fails. -/
theorem Row.fit?_eq (text : List Char) (cols : Nat) : fit? text cols = some (fit text cols) := by
  have hmissing : cols - (text.take cols).length = cols - text.length := by
    rw [List.length_take]
    omega
  rw [fit?, Nat.psub_eq_sub (List.length_take_le _ _), hmissing]
  rfl

namespace Screen

instance (s : Screen) : Decidable s.Shaped :=
  decidable_of_iff (minRows ≤ s.rows ∧ minCols ≤ s.cols ∧ s.grid.length = s.rows ∧
    ∀ row ∈ s.grid, row.length = s.cols)
    ⟨fun ⟨hrows, hcols, hlength, hwidth⟩ => ⟨hrows, hcols, hlength, hwidth⟩,
      fun h => ⟨h.minRows_le, h.minCols_le, h.length, h.width⟩⟩

/-- Put a text into a row that the grid has; a row that the screen does not count is left out. -/
def setRow? (s : Screen) (row : Nat) (text : List Char) : Option Screen :=
  if row < s.rows then do
    let cells ← Row.fit? text s.cols
    if row < s.grid.length then some { s with grid := s.grid.set row cells } else none
  else some s

/-- Drop rows that the grid has, and add as many blank ones. -/
def scrollUp? (s : Screen) (n : Nat) : Option Screen :=
  let n := min n s.rows
  if n ≤ s.grid.length then
    some { s with grid := s.grid.drop n ++ List.replicate n (Row.blank s.cols) }
  else none

/-- Make each row of the grid blank. -/
def clear? (s : Screen) : Option Screen :=
  some { s with grid := s.grid.map fun _ => Row.blank s.cols }

/-- Fit the rows of the grid into a blank one of the new size, as far as it has rows. -/
def resize? (s : Screen) (rows cols : Nat) : Option Screen := do
  let rows := max rows minRows
  let cols := max cols minCols
  let kept ← (s.grid.take rows).mapM (Row.fit? · cols)
  return { s with
    rows, cols, grid := kept ++ (List.replicate rows (Row.blank cols)).drop kept.length }

/-- Let a grid be seen that has the size of the screen. -/
def present? (s : Screen) : Option Screen :=
  if s.Shaped then some s.present else none

/-! ## What they have to do with the plain ones -/

/-- At least twelve rows of one width, and that at least forty. -/
def IsFullFrame (frame : Grid) : Prop :=
  12 ≤ frame.length ∧ ∃ cols, 40 ≤ cols ∧ ∀ row ∈ frame, row.length = cols

/-- A shaped screen; what was seen of it after these frames were full frames. -/
structure Drawn (frames : List Grid) (s : Screen) : Prop where
  shaped : s.Shaped
  seen : ∃ seen, s.frames = seen ++ frames ∧ ∀ frame ∈ seen, IsFullFrame frame

/-- A shaped grid is a full frame. -/
theorem Shaped.isFullFrame {s : Screen} (h : s.Shaped) : IsFullFrame s.grid :=
  ⟨h.length ▸ h.minRows_le, s.cols, h.minCols_le, h.width⟩

theorem Shaped.drawn {s : Screen} (h : s.Shaped) : s.Drawn s.frames :=
  ⟨h, [], rfl, List.forall_mem_nil _⟩

theorem ofSize_drawn (rows cols : Nat) (frames : List Grid) :
    (ofSize rows cols frames).Drawn frames :=
  (ofSize_shaped rows cols frames).drawn

variable {frames : List Grid} {s : Screen}

/-- Setting a row never fails, also when the row is not on the grid. -/
theorem Drawn.setRow (h : s.Drawn frames) (row : Nat) (text : List Char) :
    Passes (Drawn frames) (s.setRow? row text) (s.setRow row text) := by
  have hframes : (s.setRow row text).frames = s.frames := by
    unfold Screen.setRow
    split <;> rfl
  refine ⟨?_, h.shaped.setRow row text, hframes ▸ h.seen⟩
  by_cases hrow : row < s.rows
  · rw [setRow?, if_pos hrow, Row.fit?_eq, Option.bind_eq_bind, Option.bind_some,
      if_pos (h.shaped.length ▸ hrow), Screen.setRow, if_pos hrow]
  · rw [setRow?, if_neg hrow, Screen.setRow, if_neg hrow]

/-- Scrolling never fails, by whatever number of rows. -/
theorem Drawn.scrollUp (h : s.Drawn frames) (n : Nat) :
    Passes (Drawn frames) (s.scrollUp? n) (s.scrollUp n) := by
  have hn : min n s.rows ≤ s.grid.length := h.shaped.length ▸ Nat.min_le_right _ _
  exact ⟨if_pos hn, h.shaped.scrollUp n, h.seen⟩

theorem Drawn.clear (h : s.Drawn frames) : Passes (Drawn frames) s.clear? s.clear := by
  refine ⟨?_, h.shaped.clear, h.seen⟩
  rw [clear?, List.map_const', h.shaped.length]
  rfl

theorem Drawn.resize (h : s.Drawn frames) (rows cols : Nat) :
    Passes (Drawn frames) (s.resize? rows cols) (s.resize rows cols) := by
  refine ⟨?_, Shaped.resize rows cols, h.seen⟩
  have hfit : (s.grid.take (max rows minRows)).mapM (Row.fit? · (max cols minCols)) =
      some ((s.grid.take (max rows minRows)).map (Row.fit · (max cols minCols))) := by
    simp only [Row.fit?_eq]
    exact List.mapM_pure
  simp only [resize?, hfit, List.drop_replicate]
  rfl

/-- Showing the grid never fails, and what is seen then is a full frame. -/
theorem Drawn.present (h : s.Drawn frames) : Passes (Drawn frames) s.present? s.present := by
  obtain ⟨seen, hframes, hseen⟩ := h.seen
  refine ⟨if_pos h.shaped, h.shaped.present, s.grid :: seen, ?_, ?_⟩
  · exact congrArg (s.grid :: ·) hframes
  · exact List.forall_mem_cons.2 ⟨h.shaped.isFullFrame, hseen⟩

/-! ## One operation after the other -/

/-- What may be asked of a screen. -/
inductive Step where
  | setRow (row : Nat) (text : List Char)
  | scrollUp (n : Nat)
  | clear
  | resize (rows cols : Nat)
  | present
deriving DecidableEq, Repr

/-- The screen after an operation. -/
def step (s : Screen) : Step → Screen
  | .setRow row text => s.setRow row text
  | .scrollUp n => s.scrollUp n
  | .clear => s.clear
  | .resize rows cols => s.resize rows cols
  | .present => s.present

/-- The screen after a checked operation. -/
def step? (s : Screen) : Step → Option Screen
  | .setRow row text => s.setRow? row text
  | .scrollUp n => s.scrollUp? n
  | .clear => s.clear?
  | .resize rows cols => s.resize? rows cols
  | .present => s.present?

/-- No operation on a screen fails. -/
theorem Drawn.step (h : s.Drawn frames) (op : Step) :
    Passes (Drawn frames) (s.step? op) (s.step op) := by
  cases op with
  | setRow row text => exact h.setRow row text
  | scrollUp n => exact h.scrollUp n
  | clear => exact h.clear
  | resize rows cols => exact h.resize rows cols
  | present => exact h.present

/-- The checks do fail where a screen is not what it says. -/
example :
    let s : Screen := { rows := 12, cols := 40, grid := [Row.blank 40], frames := [] }
    s.step? (.setRow 1 ['x']) = none ∧ s.step? (.scrollUp 2) = none ∧ s.step? .present = none := by
  decide

end Screen

end SimTerm
