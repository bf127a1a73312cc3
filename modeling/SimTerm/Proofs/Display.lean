import SimTerm.Display

/-!
# What a display shows

Frames are shown on a display, and some of what it would write is refused. What is to be seen then
is the frame that was *drawn* last: it need not be the one that was shown last. A frame that was
refused counts as shown; as long as the same frame is shown again, nothing is written, even if it
would be taken. `shows_unless_withheld` says when the frame that is shown is the one to be seen, and
when nothing is written.
-/

namespace SimTerm.Display

/-- A frame is shown, and what is written is taken or refused. -/
structure Show where
  frame : List (List Char)
  refused : Bool
deriving DecidableEq, Repr

/-- A new display after these frames were shown, the latest first. -/
def after : List Show → Display
  | [] => {}
  | s :: older => (after older).present s.frame s.refused

/-- The frames that were written, the latest first. -/
def drawn : List Show → List (List (List Char))
  | [] => []
  | s :: older =>
    if s.refused ∨ (after older).pending s.frame = [] then drawn older
    else s.frame :: drawn older

/-- The last complete frame of all that was written. -/
def displayed (shows : List Show) : Option (List Char) :=
  (drawn shows).head?.map renderFrame

/-- The frame was refused when it came after another one, and only shown again since. -/
def Withheld (frame : List (List Char)) (shows : List Show) : Prop :=
  ∃ again older, shows = again ++ ⟨frame, true⟩ :: older ∧ (∀ s ∈ again, s.frame = frame) ∧
    older.head?.map Show.frame ≠ some frame

variable {frame : List (List Char)} {shows : List Show}

/-! ## What is written -/

/-- Nothing is to be written exactly if the frame is the last one written. -/
theorem pending_eq_nil {d : Display} : d.pending frame = [] ↔ d.last = frame := by
  unfold pending
  split
  · next h => exact iff_of_true rfl h
  · next h => exact iff_of_false (List.append_ne_nil_of_left_ne_nil (List.cons_ne_nil _ _) _) h

/-- Nothing has to be written for a frame exactly if it was shown just before. -/
theorem pending_after (hframe : frame ≠ []) :
    (after shows).pending frame = [] ↔ shows.head?.map Show.frame = some frame := by
  rw [pending_eq_nil]
  cases shows with
  | nil => exact iff_of_false hframe.symm (Option.some_ne_none frame).symm
  | cons s older => exact Option.some_inj.symm

/-- A frame that was shown last is not drawn again. -/
theorem drawn_again (hframe : frame ≠ []) (h : shows.head?.map Show.frame = some frame)
    (refused : Bool) : drawn (⟨frame, refused⟩ :: shows) = drawn shows :=
  if_pos (.inr ((pending_after hframe).2 h))

/-- A frame that was not shown last is drawn, if the writer takes it. -/
theorem drawn_anew (hframe : frame ≠ []) (h : shows.head?.map Show.frame ≠ some frame) :
    drawn (⟨frame, false⟩ :: shows) = frame :: drawn shows := by
  have hpending : (after shows).pending frame ≠ [] := mt (pending_after hframe).1 h
  rw [drawn, if_neg (by simpa using hpending)]

/-- All that was written are the frames that were drawn, one after the other. -/
theorem written_after (shows : List Show) :
    (after shows).written = (drawn shows).reverse.flatMap renderFrame := by
  induction shows with
  | nil => rfl
  | cons s older ih =>
    rw [after, drawn, present, ih]
    cases hrefused : s.refused with
    | true => rw [if_pos rfl, if_pos (.inl rfl)]
    | false =>
      by_cases hpending : (after older).pending s.frame = []
      · rw [if_neg (by decide), if_pos (.inr hpending), hpending, List.append_nil]
      · rw [if_neg (by decide), if_neg (by simpa using hpending), List.reverse_cons,
          List.flatMap_append, List.flatMap_singleton, pending,
          if_neg (mt pending_eq_nil.2 hpending)]

/-! ## Frames that were withheld -/

/-- What is withheld was the last frame that was shown. -/
theorem Withheld.shown (h : Withheld frame shows) : shows.head?.map Show.frame = some frame := by
  obtain ⟨again, older, rfl, hagain, -⟩ := h
  cases again with
  | nil => rfl
  | cons s again => exact congrArg some (hagain s List.mem_cons_self)

/-- What is withheld stays so while the same frame is shown. -/
theorem Withheld.cons (h : Withheld frame shows) (refused : Bool) :
    Withheld frame (⟨frame, refused⟩ :: shows) := by
  obtain ⟨again, older, rfl, hagain, holder⟩ := h
  exact ⟨⟨frame, refused⟩ :: again, older, rfl, List.forall_mem_cons.2 ⟨rfl, hagain⟩, holder⟩

/-- A frame that was shown, and not withheld, was drawn last, by induction on what was shown. -/
theorem drawn_of_not_withheld (hframe : frame ≠ [])
    (hshown : shows.head?.map Show.frame = some frame) (h : ¬ Withheld frame shows) :
    (drawn shows).head? = some frame := by
  induction shows with
  | nil => cases hshown
  | cons s older ih =>
    obtain ⟨frame', refused⟩ := s
    obtain rfl : frame' = frame := Option.some.inj hshown
    by_cases hsame : older.head?.map Show.frame = some frame'
    · rw [drawn_again hframe hsame]
      exact ih hsame (mt (Withheld.cons · refused) h)
    · cases refused with
      | false => rw [drawn_anew hframe hsame, List.head?_cons]
      | true => exact absurd ⟨[], older, rfl, List.forall_mem_nil _, hsame⟩ h

/-! ## What is to be seen -/

/-- Frames were shown, whatever was refused of them, and now a frame is shown and what is written is
taken. All that was written are the frames that were drawn. The last of them is the one that is
shown, unless that was withheld before and is not what was to be seen all the same; and nothing is
written exactly if the same frame was shown just before. -/
theorem shows_unless_withheld (shows : List Show) (hframe : frame ≠ []) :
    let shown := after (⟨frame, false⟩ :: shows)
    shown.written = (drawn (⟨frame, false⟩ :: shows)).reverse.flatMap renderFrame ∧
      (displayed (⟨frame, false⟩ :: shows) = some (renderFrame frame) ↔
        (Withheld frame shows → displayed shows = some (renderFrame frame))) ∧
      (shown.written = (after shows).written ↔ shows.head?.map Show.frame = some frame) := by
  intro shown
  refine ⟨written_after _, ?_, ?_⟩
  · by_cases hsame : shows.head?.map Show.frame = some frame
    · rw [displayed, drawn_again hframe hsame, ← displayed]
      refine ⟨fun h _ => h, fun h => ?_⟩
      by_cases hwithheld : Withheld frame shows
      · exact h hwithheld
      · rw [displayed, drawn_of_not_withheld hframe hsame hwithheld, Option.map_some]
    · rw [displayed, drawn_anew hframe hsame]
      exact iff_of_true rfl fun hwithheld => absurd hwithheld.shown hsame
  · rw [← pending_after hframe]
    exact List.append_right_eq_self

/-- A frame is on the display, and the next one is refused. It is shown again and would be taken,
but nothing is written, and the first frame is still to be seen. -/
theorem shows_unless_withheld_refused_once :
    let shows : List Show := [⟨[['y']], true⟩, ⟨[['x']], false⟩]
    [['y']] ≠ [] ∧ Withheld [['y']] shows ∧ displayed shows = some (renderFrame [['x']]) ∧
      displayed (⟨[['y']], false⟩ :: shows) ≠ some (renderFrame [['y']]) ∧
      (after (⟨[['y']], false⟩ :: shows)).written = (after shows).written := by
  intro shows
  have hframe : [['y']] ≠ [] := List.cons_ne_nil _ _
  have hwithheld : Withheld [['y']] shows :=
    ⟨[], [⟨[['x']], false⟩], rfl, List.forall_mem_nil _, by decide⟩
  have hbefore : displayed shows = some (renderFrame [['x']]) := by decide
  obtain ⟨-, hdisplayed, hunwritten⟩ := shows_unless_withheld shows hframe
  refine ⟨hframe, hwithheld, hbefore, fun h => ?_, hunwritten.2 rfl⟩
  have hafter := hdisplayed.1 h hwithheld
  rw [hbefore] at hafter
  revert hafter
  decide

/-- A frame that was refused and is shown again is not to be seen; and one that is to be seen is
written again if another was refused since. -/
theorem displayed_not_last_shown :
    displayed [⟨[['x']], false⟩, ⟨[['x']], true⟩] = none ∧
      displayed [⟨[['y']], true⟩, ⟨[['x']], false⟩] = some (renderFrame [['x']]) ∧
      (after [⟨[['x']], false⟩, ⟨[['y']], true⟩, ⟨[['x']], false⟩]).written ≠
        (after [⟨[['y']], true⟩, ⟨[['x']], false⟩]).written := by
  decide

end SimTerm.Display
