import SimTerm.History

/-!
# Browsing the history

The *place* in a history is the line shown, or one past the newest line while the user does not
browse. With it browsing is a walk between the oldest line and that end: going up takes a step
towards the oldest line, going down takes one towards the end, and no step leaves the range
(`up_eq`, `down_eq`). So the place after many steps is known at once (`place_run_ups`,
`place_run_downs`), and from it the line that is shown: `run_walks`.

The walk needs a position that is that of a line. A new history has none, and every call keeps this:
`InRange.perform`.
-/

namespace SimTerm.History

/-! ## Calls -/

/-- What may be asked of a history. -/
inductive Call where
  | push (line : String)
  | up
  | down
  | leave
deriving DecidableEq, Repr

/-- The line told in answer to a call, and the history after it. -/
def perform (h : History) : Call → Option String × History
  | .push line => (none, h.push line)
  | .up => h.up
  | .down => h.down
  | .leave => (none, h.leave)

/-- The history after some calls, one after the other. -/
def run (h : History) (calls : List Call) : History :=
  calls.foldl (fun h call => (h.perform call).2) h

/-- The lines told in answer to some calls. -/
def answers (h : History) : List Call → List (Option String)
  | [] => []
  | call :: calls => (h.perform call).1 :: answers (h.perform call).2 calls

/-- The line that a call pushes. -/
def Call.pushed? : Call → Option String
  | .push line => some line
  | _ => none

/-- Browsing is going up and going down. -/
def Call.browses : Call → Bool
  | .up | .down => true
  | _ => false

/-- The line has a character that is not blank. -/
def IsKept (line : String) : Prop :=
  ∃ c ∈ line.toList, Text.isBlank c = false

instance (line : String) : Decidable (IsKept line) :=
  List.decidableBEx (Text.isBlank · = false) line.toList

/-- Calls can be run in two parts. -/
theorem run_append (h : History) (calls more : List Call) :
    h.run (calls ++ more) = (h.run calls).run more :=
  List.foldl_append

/-- The last call is answered by the history that the calls before it left. -/
theorem answers_concat (h : History) (calls : List Call) (call : Call) :
    h.answers (calls ++ [call]) = h.answers calls ++ [((h.run calls).perform call).1] := by
  induction calls generalizing h with
  | nil => rfl
  | cons first calls ih =>
    rw [List.cons_append, answers, ih, answers, List.cons_append]
    rfl

/-! ## The lines -/

/-- Going up changes no entry. -/
theorem entries_up (h : History) : h.up.2.entries = h.entries := by
  unfold up
  split <;> rfl

theorem entries_down (h : History) : h.down.2.entries = h.entries := by
  unfold down
  split
  · rfl
  · split <;> rfl

/-- A line is kept unless it holds blank characters only. -/
theorem allBlank_iff_not_isKept (line : String) :
    Text.allBlank line.toList = true ↔ ¬ IsKept line := by
  simp [Text.allBlank, IsKept]

/-- A line is put at the end if it is kept, and otherwise nothing changes. -/
theorem entries_push (h : History) (line : String) :
    (h.push line).entries = h.entries ++ [line].filter (IsKept ·) := by
  unfold push
  split
  · next hblank =>
    have hnot := (allBlank_iff_not_isKept line).1 hblank
    rw [List.filter_cons_of_neg (by simpa using hnot)]
    exact (List.append_nil _).symm
  · next hblank =>
    have hkept := Decidable.not_not.1 (mt (allBlank_iff_not_isKept line).2 hblank)
    rw [List.filter_cons_of_pos (by simpa using hkept)]
    rfl

/-- A call adds the line that it pushes, if that is not blank, and changes no other one. -/
theorem entries_perform (h : History) (call : Call) :
    (h.perform call).2.entries = h.entries ++ call.pushed?.toList.filter (IsKept ·) := by
  cases call with
  | push line => exact h.entries_push line
  | up => exact h.entries_up.trans (List.append_nil _).symm
  | down => exact h.entries_down.trans (List.append_nil _).symm
  | leave => exact (List.append_nil _).symm

/-- The entries after some calls are those before and the kept ones of the pushed lines, in order.
-/
theorem entries_run (h : History) (calls : List Call) :
    (h.run calls).entries =
      h.entries ++ (calls.filterMap Call.pushed?).filter (IsKept ·) := by
  induction calls generalizing h with
  | nil => exact (List.append_nil _).symm
  | cons call calls ih =>
    have hfirst : (call :: calls).filterMap Call.pushed? =
        call.pushed?.toList ++ calls.filterMap Call.pushed? := by
      cases call <;> rfl
    rw [hfirst, List.filter_append, ← List.append_assoc, ← entries_perform]
    exact ih (h.perform call).2

/-! ## The place -/

/-- The position is that of a line. -/
def InRange (h : History) : Prop :=
  ∀ i, h.position = some i → i < h.entries.length

/-- The position, or one past the newest line. -/
def place (h : History) : Nat :=
  h.position.getD h.entries.length

/-- The history with another place. -/
def seek (h : History) (place : Nat) : History :=
  { h with position := if place < h.entries.length then some place else none }

/-- The place while browsing is the position. -/
theorem place_of_position {h : History} {i : Nat} (hi : h.position = some i) : h.place = i := by
  rw [place, hi, Option.getD_some]

/-- The place while not browsing is behind the last entry. -/
theorem place_of_left {h : History} (hleft : h.position = none) :
    h.place = h.entries.length := by
  rw [place, hleft, Option.getD_none]

theorem seek_of_lt {h : History} {place : Nat} (hlt : place < h.entries.length) :
    h.seek place = { h with position := some place } := by
  rw [seek, if_pos hlt]

/-- Seeking a place behind the last entry stops browsing. -/
theorem seek_of_le {h : History} {place : Nat} (hle : h.entries.length ≤ place) :
    h.seek place = { h with position := none } := by
  rw [seek, if_neg (Nat.not_lt.2 hle)]

/-- Wherever it is sought, the position is one of an entry. -/
theorem seek_inRange (h : History) (place : Nat) : (h.seek place).InRange := by
  intro i hi
  unfold seek at hi
  split at hi
  · next hlt =>
    obtain rfl := Option.some.inj hi
    exact hlt
  · cases hi

/-- Seeking a place leads there. -/
theorem place_seek {h : History} {place : Nat} (hle : place ≤ h.entries.length) :
    (h.seek place).place = place := by
  unfold seek History.place
  split
  · rfl
  · exact Nat.le_antisymm (Nat.not_lt.1 ‹_›) hle

namespace InRange

variable {h : History}

/-- A history in range is at an entry or behind the last one. -/
theorem place_le (hrange : h.InRange) : h.place ≤ h.entries.length := by
  unfold place
  cases hposition : h.position with
  | none => exact Nat.le_refl _
  | some i => exact Nat.le_of_lt (hrange i hposition)

/-- The place tells the position. -/
theorem position_eq (hrange : h.InRange) :
    h.position = if h.place < h.entries.length then some h.place else none := by
  unfold place
  cases hposition : h.position with
  | none => exact (if_neg (Nat.lt_irrefl _)).symm
  | some i => exact (if_pos (hrange i hposition)).symm

/-- Seeking the place where one is changes nothing. -/
theorem seek_place (hrange : h.InRange) : h.seek h.place = h := by
  rw [seek, ← hrange.position_eq]

/-- Going up is a step towards the oldest line. -/
theorem up_eq (hrange : h.InRange) : h.up = (h.entries[h.place - 1]?, h.seek (h.place - 1)) := by
  by_cases hnil : h.entries = []
  · have hplace : h.place = 0 := by
      have hle := hrange.place_le
      rw [hnil] at hle
      exact Nat.le_zero.1 hle
    have hseek := hrange.seek_place
    rw [hplace] at hseek
    rw [up, if_pos hnil, hplace, hseek, hnil]
    rfl
  · have hpos := List.length_pos_iff.2 hnil
    have hle := hrange.place_le
    have hlt : h.place - 1 < h.entries.length := by omega
    rw [up, if_neg hnil, seek, if_pos hlt, place]
    cases h.position <;> rfl

/-- Going down is a step towards the end, where there is nothing more to tell. -/
theorem down_eq (hrange : h.InRange) :
    h.down =
      (if h.place < h.entries.length then some (h.entries[h.place + 1]?.getD "") else none,
        h.seek (min (h.place + 1) h.entries.length)) := by
  cases hposition : h.position with
  | none =>
    have hplace := place_of_left hposition
    have hseek := hrange.seek_place
    rw [hplace] at hseek
    rw [down, hposition, hplace, if_neg (Nat.lt_irrefl _), Nat.min_eq_right (Nat.le_succ _), hseek]
  | some i =>
    have hi := hrange i hposition
    rw [down, hposition, place_of_position hposition, if_pos hi, Nat.min_eq_left hi, seek]
    dsimp only
    split
    · next hlt => rw [List.getElem?_eq_getElem hlt, Option.getD_some]
    · next hge =>
      rw [List.getElem?_eq_none (Nat.not_lt.1 hge)]
      rfl

theorem push (h : History) (line : String) : (h.push line).InRange := by
  intro i hi
  unfold History.push at hi
  split at hi <;> cases hi

theorem perform (hrange : h.InRange) (call : Call) : (h.perform call).2.InRange := by
  cases call with
  | push line => exact push h line
  | up =>
    rw [History.perform, hrange.up_eq]
    exact h.seek_inRange _
  | down =>
    rw [History.perform, hrange.down_eq]
    exact h.seek_inRange _
  | leave => exact fun _ hi => by cases hi

/-- Any calls leave the position in range. -/
theorem run (hrange : h.InRange) (calls : List Call) : (h.run calls).InRange := by
  induction calls generalizing h with
  | nil => exact hrange
  | cons call calls ih => exact ih (hrange.perform call)

end InRange

theorem new_inRange : InRange {} :=
  fun _ hi => by cases hi

/-! ## Many steps -/

/-- Up takes one place back each time, and stops at the oldest entry. -/
theorem place_run_ups {h : History} (hrange : h.InRange) (k : Nat) :
    (h.run (List.replicate k .up)).place = h.place - k := by
  induction k generalizing h with
  | zero => rfl
  | succ k ih =>
    have hup : h.up.2 = h.seek (h.place - 1) := congrArg Prod.snd hrange.up_eq
    have hle : h.place - 1 ≤ h.entries.length :=
      Nat.le_trans (Nat.sub_le _ _) hrange.place_le
    show (h.up.2.run (List.replicate k .up)).place = _
    rw [hup, ih (h.seek_inRange _), place_seek hle]
    omega

/-- Down takes one place on each time, and stops behind the newest entry. -/
theorem place_run_downs {h : History} (hrange : h.InRange) (j : Nat) :
    (h.run (List.replicate j .down)).place = min (h.place + j) h.entries.length := by
  induction j generalizing h with
  | zero => exact (Nat.min_eq_left hrange.place_le).symm
  | succ j ih =>
    have hdown : h.down.2 = h.seek (min (h.place + 1) h.entries.length) :=
      congrArg Prod.snd hrange.down_eq
    show (h.down.2.run (List.replicate j .down)).place = _
    rw [hdown, ih (h.seek_inRange _), place_seek (Nat.min_le_right _ _)]
    show min _ h.entries.length = _
    omega

/-- A step that leads to a line tells it. -/
theorem answer_of_position {h : History} (hrange : h.InRange) {call : Call}
    (hbrowse : call.browses = true) {i : Nat} (hi : (h.perform call).2.position = some i) :
    (h.perform call).1 = h.entries[i]? := by
  cases call with
  | up =>
    rw [perform, hrange.up_eq, seek] at hi
    rw [perform, hrange.up_eq]
    split at hi
    · rw [← Option.some.inj hi]
    · cases hi
  | down =>
    have hle := hrange.place_le
    rw [perform, hrange.down_eq, seek] at hi
    rw [perform, hrange.down_eq]
    dsimp only at hi ⊢
    split at hi
    · next hlt =>
      -- at the last line there is no way down that keeps a position
      have hnext : h.place + 1 < h.entries.length := by omega
      rw [← Option.some.inj hi, if_pos (by omega), Nat.min_eq_left (Nat.le_of_lt hnext),
        List.getElem?_eq_getElem hnext, Option.getD_some]
    · cases hi
  | push | leave => cases hbrowse

theorem browses_replicate {call : Call} (hcall : call.browses = true) (n : Nat) :
    ∀ step ∈ List.replicate n call, step.browses = true := by
  intro step hstep
  rw [List.eq_of_mem_replicate hstep]
  exact hcall

/-- Browsing changes no entry. -/
theorem entries_run_of_browses (h : History) {calls : List Call}
    (hbrowse : ∀ call ∈ calls, call.browses = true) : (h.run calls).entries = h.entries := by
  have hsilent : calls.filterMap Call.pushed? = [] := by
    refine List.filterMap_eq_nil_iff.2 fun call hcall => ?_
    have hbrowses := hbrowse call hcall
    cases call <;> first | rfl | cases hbrowses
  rw [entries_run, hsilent]
  exact List.append_nil _

/-- Browsing that leads to a line ends with telling it. -/
theorem getLast?_answers {h : History} (hrange : h.InRange) {calls : List Call}
    (hbrowse : ∀ call ∈ calls, call.browses = true) (hne : calls ≠ []) {i : Nat}
    (hi : (h.run calls).position = some i) :
    (h.answers calls).getLast? = some h.entries[i]? := by
  obtain ⟨first, last, rfl⟩ : ∃ first last, calls = first ++ [last] :=
    ⟨calls.dropLast, calls.getLast hne, (List.dropLast_concat_getLast hne).symm⟩
  have hfirst := h.entries_run_of_browses fun call hcall =>
    hbrowse call (List.mem_append_left _ hcall)
  have hlast := hbrowse last (List.mem_append_right _ List.mem_cons_self)
  rw [run_append] at hi
  rw [answers_concat, List.getLast?_concat, answer_of_position (hrange.run first) hlast hi, hfirst]

/-- Going up from the end and then down again, as long as that does not lead back to the end. -/
theorem ups_then_downs {h : History} (hrange : h.InRange) (hleft : h.position = none) {k j : Nat}
    (hlt : h.entries.length - k + j < h.entries.length) :
    let steps := List.replicate k Call.up ++ List.replicate j Call.down
    (h.run steps).position = some (h.entries.length - k + j) ∧
      (h.answers steps).getLast? = some (some h.entries[h.entries.length - k + j]) := by
  intro steps
  have hups : ∀ call ∈ List.replicate k Call.up, call.browses = true := browses_replicate rfl k
  have hbrowse : ∀ call ∈ steps, call.browses = true :=
    List.forall_mem_append.2 ⟨hups, browses_replicate rfl j⟩
  have hplace : (h.run steps).place = h.entries.length - k + j := by
    rw [run_append, place_run_downs (hrange.run _), place_run_ups hrange, place_of_left hleft,
      h.entries_run_of_browses hups, Nat.min_eq_left (Nat.le_of_lt hlt)]
  have hposition : (h.run steps).position = some (h.entries.length - k + j) := by
    rw [(hrange.run steps).position_eq, hplace, h.entries_run_of_browses hbrowse, if_pos hlt]
  -- without a step up there is no line that could be reached
  have hne : steps ≠ [] := by
    have hlength : steps.length = k + j := by simp [steps]
    refine List.ne_nil_of_length_pos ?_
    omega
  refine ⟨hposition, ?_⟩
  rw [getLast?_answers hrange hbrowse hne hposition, List.getElem?_eq_getElem hlt]

/-- Whatever calls a new history has answered, its lines are those pushed that are not blank, in
order, and its position, if it has one, is that of a line. So every line that is looked up is there:
going up tells the newest line, then the next older one, and stays at the oldest; going down tells
the next newer line and leaves the newest one for an empty text; without a position there is no way
down, and without lines no way up; a pushed line, blank or not, ends browsing. After `k` steps up
from no position and `j` steps down, the line shown stands `j` behind the one that is `k` before the
end or the oldest, as long as there is such a line. -/
theorem run_walks (calls : List Call) :
    let h := run {} calls
    let m := h.entries.length
    h.entries = (calls.filterMap Call.pushed?).filter (IsKept ·) ∧
      (∀ i, h.position = some i → ∃ hi : i < m,
        h.up = (some h.entries[i - 1], { h with position := some (i - 1) }) ∧
          h.down = if hnext : i + 1 < m then
              (some h.entries[i + 1], { h with position := some (i + 1) })
            else (some "", { h with position := none })) ∧
      (h.position = none → h.down = (none, h) ∧
        h.up = if hpos : 0 < m then (some h.entries[m - 1], { h with position := some (m - 1) })
          else (none, h)) ∧
      (∀ line, (h.push line).position = none) ∧ h.leave = { h with position := none } ∧
      (h.position = none → ∀ k j, ∀ hlt : m - k + j < m,
        let steps := List.replicate k Call.up ++ List.replicate j Call.down
        (h.run steps).position = some (m - k + j) ∧
          (h.answers steps).getLast? = some (some h.entries[m - k + j])) := by
  intro h m
  -- in range, both steps are a `seek` to the place before or behind
  have hrange : h.InRange := new_inRange.run calls
  refine ⟨entries_run {} calls, fun i hi => ?_, fun hleft => ⟨?_, ?_⟩, fun line => ?_, rfl,
    fun hleft k j hlt => ups_then_downs hrange hleft hlt⟩
  · have hlt : i < m := hrange i hi
    have hbefore : i - 1 < m := Nat.lt_of_le_of_lt (Nat.sub_le _ _) hlt
    refine ⟨hlt, ?_, ?_⟩
    · rw [hrange.up_eq, place_of_position hi, seek_of_lt hbefore, List.getElem?_eq_getElem hbefore]
    · rw [hrange.down_eq, place_of_position hi, if_pos hlt, Nat.min_eq_left hlt]
      split
      · next hnext => rw [seek_of_lt hnext, List.getElem?_eq_getElem hnext, Option.getD_some]
      · next hlast =>
        have hend : m ≤ i + 1 := Nat.not_lt.1 hlast
        rw [seek_of_le hend, List.getElem?_eq_none hend, Option.getD_none]
  · rw [down, hleft]
  · rw [hrange.up_eq, place_of_left hleft]
    split
    · next hpos =>
      have hlast : m - 1 < m := Nat.sub_lt hpos Nat.one_pos
      rw [seek_of_lt hlast, List.getElem?_eq_getElem hlast]
    · next hnone =>
      have hend : m ≤ m - 1 := by omega
      rw [seek_of_le hend, List.getElem?_eq_none hend, ← hleft]
  · unfold push
    split <;> rfl

/-- A blank line was pushed while browsing, and five steps up lead past the oldest of the three
lines. -/
theorem run_walks_past_oldest :
    let h := run {} [.push "a", .push "b", .up, .push " \t", .push "c"]
    h.entries = ["a", "b", "c"] ∧ h.position = none ∧
      (h.run [.up, .up, .up, .up, .up, .down]).position = some 1 ∧
      (h.answers [.up, .up, .up, .up, .up, .down]).getLast? = some (some "b") := by
  intro h
  have hentries : h.entries = ["a", "b", "c"] := by decide +kernel
  obtain ⟨-, -, -, -, -, hwalk⟩ :=
    run_walks [.push "a", .push "b", .up, .push " \t", .push "c"]
  obtain ⟨hposition, hanswer⟩ := hwalk rfl 5 1 (by decide +kernel)
  exact ⟨hentries, rfl, hposition, hanswer⟩

end SimTerm.History
