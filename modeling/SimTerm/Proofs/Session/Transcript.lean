import SimTerm.Session

/-!
# What events put on an endless screen

A screen without a bottom would keep all rows of output. `scroll` tells what events leave on it:
printed lines are added below, and a prompt row that is drawn over output takes the place of the
last row. `Late` tells when that happens, from the number of rows alone: some input is shown after
output has filled the screen.
-/

namespace SimTerm

/-- The last rows of some rows. -/
def lastRows (n : Nat) (rows : List Row) : List Row :=
  rows.drop (rows.length - n)

/-- There are as many last rows as are asked for, if there are so many rows. -/
theorem length_lastRows {n : Nat} {rows : List Row} (h : n ≤ rows.length) :
    (lastRows n rows).length = n := by
  rw [lastRows, List.length_drop]
  omega

/-- A new row is the last one, and one row less of the others is seen. -/
theorem lastRows_append_singleton (n : Nat) (rows : List Row) (row : Row) :
    lastRows (n + 1) (rows ++ [row]) = lastRows n rows ++ [row] := by
  have hlength : (rows ++ [row]).length - (n + 1) = rows.length - n := by
    rw [List.length_append, List.length_singleton]
    omega
  rw [lastRows, hlength, List.drop_append_of_le_length (Nat.sub_le _ _), lastRows]

/-- Without the first of the last rows one less is left. -/
theorem drop_one_lastRows {n : Nat} {rows : List Row} (h : n + 1 ≤ rows.length) :
    (lastRows (n + 1) rows).drop 1 = lastRows n rows := by
  rw [lastRows, List.drop_drop, lastRows]
  congr 1
  omega

/-- A row in the place of the last one. -/
theorem set_lastRows {n : Nat} {rows : List Row} (h : n < rows.length) (row : Row) :
    (lastRows (n + 1) rows).set n row = lastRows (n + 1) (rows.dropLast ++ [row]) := by
  have hne : rows ≠ [] := List.ne_nil_of_length_pos (by omega)
  obtain ⟨rest, last, rfl⟩ : ∃ rest last, rows = rest ++ [last] :=
    ⟨rows.dropLast, rows.getLast hne, (List.dropLast_concat_getLast hne).symm⟩
  rw [List.length_append, List.length_singleton] at h
  have hlength : (lastRows n rest).length = n := length_lastRows (by omega)
  rw [List.dropLast_concat, lastRows_append_singleton, lastRows_append_singleton,
    List.set_append_right _ _ (Nat.le_of_eq hlength), hlength, Nat.sub_self, List.set_cons_zero]

namespace SessionEvent

/-- The rows of output that an event adds on a screen of a width. -/
def rows (cols : Nat) : SessionEvent → List Row
  | .printed line => (wrapped cols line.toList).map (Row.fit · cols)
  | _ => []

/-- The event shows some input on the prompt row. -/
def showsInput : SessionEvent → Bool
  | .pasted _ => true
  | .echoed _ => true
  | _ => false

/-- What an event leaves on an endless screen. -/
def scroll (cols : Nat) (seen : List Row) : SessionEvent → List Row
  | .overdrawn row => seen.dropLast ++ [row]
  | event => seen ++ event.rows cols

end SessionEvent

/-- The rows of output that events add on a screen of a width. -/
def printedRows (cols : Nat) (events : List SessionEvent) : List Row :=
  events.flatMap (·.rows cols)

/-- What events leave on an endless screen. -/
def scroll (cols : Nat) (seen : List Row) (events : List SessionEvent) : List Row :=
  events.foldl (SessionEvent.scroll cols) seen

/-- Some input is shown when output has come to the end of a screen of this size, if the first row
of output stands on the row `place`. -/
def Late (rows cols : Nat) : Nat → List SessionEvent → Prop
  | _, [] => False
  | place, event :: events =>
    (event.showsInput ∧ rows ≤ place) ∨ Late rows cols (place + (event.rows cols).length) events

instance decidableLate (rows cols place : Nat) (events : List SessionEvent) :
    Decidable (Late rows cols place events) :=
  match events with
  | [] => isFalse id
  | event :: events =>
    have := decidableLate rows cols (place + (event.rows cols).length) events
    inferInstanceAs (Decidable (_ ∨ _))

/-- The rows of events in two parts come one after the other. -/
theorem printedRows_append (cols : Nat) (a b : List SessionEvent) :
    printedRows cols (a ++ b) = printedRows cols a ++ printedRows cols b :=
  List.flatMap_append

/-- Events in two parts scroll one after the other. -/
theorem scroll_append (cols : Nat) (seen : List Row) (a b : List SessionEvent) :
    scroll cols seen (a ++ b) = scroll cols (scroll cols seen a) b :=
  List.foldl_append

/-- Input is shown late in two parts if it is late in the first, or in the second from where the
first ended. -/
theorem late_append {rows cols place : Nat} {a b : List SessionEvent} :
    Late rows cols place (a ++ b) ↔
      Late rows cols place a ∨ Late rows cols (place + (printedRows cols a).length) b := by
  induction a generalizing place with
  | nil => simp [Late, printedRows]
  | cons event a ih =>
    have hlength : (printedRows cols (event :: a)).length =
        (event.rows cols).length + (printedRows cols a).length := by
      rw [printedRows, List.flatMap_cons, List.length_append, printedRows]
    rw [List.cons_append, Late, Late, ih, hlength, Nat.add_assoc, or_assoc]

/-- Where output stands below the end of the screen does not matter. -/
theorem late_min (rows cols place : Nat) (events : List SessionEvent) :
    Late rows cols (min rows place) events ↔ Late rows cols place events := by
  induction events generalizing place with
  | nil => rfl
  | cons event events ih =>
    -- both sides are below the end or neither is, here and after the rows of the event
    have hmin : min rows (min rows place + (event.rows cols).length) =
        min rows (place + (event.rows cols).length) := by
      omega
    have hle : rows ≤ min rows place ↔ rows ≤ place := by
      omega
    rw [Late, Late, ← ih, hmin, ih, hle]

/-- A row that is drawn over another adds none. -/
theorem length_scroll {cols : Nat} {seen : List Row} (h : seen ≠ [])
    (events : List SessionEvent) :
    (scroll cols seen events).length = seen.length + (printedRows cols events).length := by
  have hpos := List.length_pos_iff.2 h
  -- there is a row to draw over, so taking the last one away can be counted
  have hmore : ∀ event seen, 0 < seen.length → (SessionEvent.scroll cols seen event).length =
      seen.length + (event.rows cols).length := by
    intro event seen hseen
    cases event with
    | overdrawn row =>
      simp only [SessionEvent.scroll, SessionEvent.rows, List.length_append, List.length_dropLast,
        List.length_singleton, List.length_nil]
      omega
    | _ => simp [SessionEvent.scroll]
  induction events generalizing seen with
  | nil => rfl
  | cons event events ih =>
    have hnext := hmore event seen hpos
    have hnextPos : 0 < (SessionEvent.scroll cols seen event).length := by
      omega
    have hrest := ih (List.length_pos_iff.1 hnextPos) hnextPos
    rw [scroll, List.foldl_cons, ← scroll, hrest, hnext, printedRows, printedRows,
      List.flatMap_cons, List.length_append, Nat.add_assoc]

/-- Where nothing is drawn over output, all rows of output are there. -/
theorem scroll_eq_append {cols : Nat} {events : List SessionEvent}
    (h : ∀ row, .overdrawn row ∉ events) (seen : List Row) :
    scroll cols seen events = seen ++ printedRows cols events := by
  induction events generalizing seen with
  | nil => simp [scroll, printedRows]
  | cons event events ih =>
    have hevent : SessionEvent.scroll cols seen event = seen ++ event.rows cols := by
      cases event with
      | overdrawn row => exact absurd List.mem_cons_self (h row)
      | _ => rfl
    rw [scroll, List.foldl_cons, hevent, ← scroll,
      ih fun row hrow => h row (List.mem_cons_of_mem _ hrow), printedRows, printedRows,
      List.flatMap_cons, List.append_assoc]

end SimTerm
