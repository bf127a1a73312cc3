import Mathlib.Data.List.DropRight
import Mathlib.Logic.Function.Iterate
import SimTerm.Proofs.Session.Calls

/-!
# The input as a zipper

A text with a place in it is a *zipper*: what stands before the place and what stands after it. The
editor keeps the text in one piece and counts the characters before the cursor; `Editor.Mirrors`
relates it to the zipper it stands for, and so says that the cursor is in range. Every call of a
session changes the editor as `Zipper.act` changes the zipper: `Editor.Mirrors.perform`.

Whether the input outlives the next prompt depends on the calls so far: a text must have been pasted
after the latest prompt, commit, reset or echo. `pasteStands` reads this off the calls, and
`run_mirrors`, by induction on them, says that the editor has kept track of it.
-/

namespace SimTerm

/-- A text with a place in it. -/
@[ext]
structure Zipper where
  before : List Char
  after : List Char
deriving DecidableEq, Repr

namespace Zipper

/-- Move the place behind the next character, if there is one. -/
def right : Zipper → Zipper
  | ⟨before, []⟩ => ⟨before, []⟩
  | ⟨before, c :: after⟩ => ⟨before ++ [c], after⟩

/-- Move the place in front of the character before it, if there is one. -/
def left (z : Zipper) : Zipper :=
  match z.before.getLast? with
  | none => z
  | some c => ⟨z.before.dropLast, c :: z.after⟩

/-- Move the place by some characters, to the right or, if there are less than none, to the left. -/
def shift (z : Zipper) : Int → Zipper
  | .ofNat n => right^[n] z
  | .negSucc n => left^[n + 1] z

/-- A text with the place behind it. -/
def ended (text : List Char) : Zipper :=
  ⟨text, []⟩

/-- What a call of a session does to a zipper. The flag says whether a pasted text is to outlive the
next prompt. -/
def act (z : Zipper) (stands : Bool) (history : History) : Session.Call → Zipper
  | .insert c => if c = '\r' ∨ c = '\n' then z else ⟨z.before ++ [c], z.after⟩
  | .paste text => ⟨z.before ++ text.toList, z.after⟩
  | .echo text => ended text.toList
  | .backspace => ⟨z.before.dropLast, z.after⟩
  | .delete => ⟨z.before, z.after.tail⟩
  | .moveCursor delta => z.shift delta
  | .home => ⟨[], z.before ++ z.after⟩
  | .toEnd => ended (z.before ++ z.after)
  | .historyUp => (history.up.1.map fun line => ended line.toList).getD z
  | .historyDown => (history.down.1.map fun line => ended line.toList).getD z
  | .drawPrompt | .start => if stands then z else ended []
  | .commit | .resetHard => ended []
  | _ => z

/-! ## Moving -/

/-- A text with the place behind some of its characters. -/
def opened (text : List Char) (n : Nat) : Zipper :=
  ⟨text.take n, text.drop n⟩

/-- A step to the right opens a text one place later. -/
theorem right_opened (text : List Char) (n : Nat) :
    (opened text n).right = opened text (n + 1) := by
  have hbefore : text.take (n + 1) = text.take n ++ (text.drop n).head?.toList := by
    rw [List.take_add_one, List.head?_drop]
  have hafter : text.drop (n + 1) = (text.drop n).tail := List.tail_drop.symm
  rw [opened, opened, hbefore, hafter]
  cases text.drop n with
  | nil => exact congrArg (Zipper.mk · []) (List.append_nil _).symm
  | cons c cs => rfl

/-- A step to the left opens a text one place earlier. -/
theorem left_opened {text : List Char} {n : Nat} (h : n ≤ text.length) :
    (opened text n).left = opened text (n - 1) := by
  cases n with
  | zero => rfl
  | succ n =>
    have hbefore : text.take (n + 1) = text.take n ++ [text[n]] :=
      List.take_succ_eq_append_getElem h
    have hafter : text[n] :: text.drop (n + 1) = text.drop n := List.getElem_cons_drop h
    rw [left, opened, hbefore, List.getLast?_concat]
    exact Zipper.ext List.dropLast_concat hafter

/-- Steps to the right open a text that many places later. -/
theorem right_iterate_opened (text : List Char) (n k : Nat) :
    right^[k] (opened text n) = opened text (n + k) := by
  induction k with
  | zero => rfl
  | succ k ih => rw [Function.iterate_succ_apply', ih, right_opened, Nat.add_assoc]

/-- Steps to the left open a text that many places earlier. -/
theorem left_iterate_opened {text : List Char} {n : Nat} (h : n ≤ text.length) (k : Nat) :
    left^[k] (opened text n) = opened text (n - k) := by
  induction k with
  | zero => rfl
  | succ k ih =>
    rw [Function.iterate_succ_apply', ih, left_opened (by omega), Nat.sub_sub]

/-- Behind the end of a text there is no other place. -/
theorem opened_min (text : List Char) (n : Nat) :
    opened text (min n text.length) = opened text n := by
  rcases Nat.le_total n text.length with h | h
  · rw [Nat.min_eq_left h]
  · rw [Nat.min_eq_right h, opened, opened, List.take_of_length_le h, List.drop_eq_nil_of_le h,
      List.take_length, List.drop_length]

/-- Moving by one character after the other ends where a place clamped to the text is. -/
theorem shift_opened {text : List Char} {n : Nat} (h : n ≤ text.length) (delta : Int) :
    (opened text n).shift delta = opened text (min (n + delta).toNat text.length) := by
  rw [opened_min]
  cases delta with
  | ofNat k =>
    rw [shift, right_iterate_opened]
    congr 1
  | negSucc k =>
    rw [shift, left_iterate_opened h]
    congr 1
    omega

end Zipper

namespace Editor

/-- What stands on either side of the cursor. -/
def zipper (e : Editor) : Zipper :=
  ⟨e.before, e.after⟩

/-- The editor stands for the zipper, with the cursor at its place, and the flag says whether the
input is kept through the next prompt. -/
structure Mirrors (e : Editor) (z : Zipper) (stands : Bool) : Prop where
  input : e.input = z.before ++ z.after
  cursor : e.cursor = z.before.length
  kept : e.kept = stands

namespace Mirrors

variable {e : Editor} {z : Zipper} {stands : Bool}

/-- The cursor is never behind the end of the input. -/
theorem cursor_le (h : e.Mirrors z stands) : e.cursor ≤ e.input.length := by
  rw [h.cursor, h.input, List.length_append]
  exact Nat.le_add_right _ _

theorem before_eq (h : e.Mirrors z stands) : e.before = z.before := by
  rw [before, h.input, h.cursor, List.take_left]

theorem after_eq (h : e.Mirrors z stands) : e.after = z.after := by
  rw [after, h.input, h.cursor, List.drop_left]

/-- An editor stands for one zipper only. -/
theorem zipper_eq (h : e.Mirrors z stands) : e.zipper = z :=
  Zipper.ext h.before_eq h.after_eq

/-- A cursor in range gives the zipper of an editor. -/
theorem of_cursor_le (h : e.cursor ≤ e.input.length) : e.Mirrors e.zipper e.kept :=
  ⟨(List.take_append_drop _ _).symm, (List.length_take_of_le h).symm, rfl⟩

/-- An empty editor stands for the empty zipper. -/
theorem nil : Mirrors {} (.ended []) false :=
  ⟨rfl, rfl, rfl⟩

/-- What is put in comes at the end of the front. -/
theorem put (h : e.Mirrors z stands) (text : List Char) :
    (e.put text).Mirrors ⟨z.before ++ text, z.after⟩ stands where
  input := by rw [Editor.put, h.before_eq, h.after_eq]
  cursor := by rw [Editor.put, h.cursor, List.length_append]
  kept := h.kept

/-- A paste goes where typing goes, and keeps the input through the next prompt. -/
theorem paste (h : e.Mirrors z stands) (text : List Char) :
    (e.paste text).Mirrors ⟨z.before ++ text, z.after⟩ true :=
  ⟨(h.put text).input, (h.put text).cursor, rfl⟩

/-- Showing a text in place of the input. -/
theorem ended {text : List Char} (hinput : e.input = text) (hcursor : e.cursor = text.length)
    (hkept : e.kept = stands) : e.Mirrors (.ended text) stands :=
  ⟨hinput.trans (List.append_nil text).symm, hcursor, hkept⟩

/-- A typed character comes at the end of the front, unless it is a line break. -/
theorem insert (h : e.Mirrors z stands) (c : Char) :
    (if isBreak c then e else e.put [c]).Mirrors
      (if c = '\r' ∨ c = '\n' then z else ⟨z.before ++ [c], z.after⟩) stands := by
  have hbreak : isBreak c = true ↔ c = '\r' ∨ c = '\n' := by simp [isBreak]
  by_cases hc : c = '\r' ∨ c = '\n'
  · rw [if_pos (hbreak.2 hc), if_pos hc]
    exact h
  · rw [if_neg (mt hbreak.1 hc), if_neg hc]
    exact h.put [c]

/-- A backspace takes the last character of the front. -/
theorem backspace (h : e.Mirrors z stands) :
    (if e.cursor = 0 then e else e.backspace).Mirrors ⟨z.before.dropLast, z.after⟩ stands := by
  split
  · next hcursor =>
    -- with the cursor at the start there is nothing to drop
    have hnil : z.before = [] := List.length_eq_zero_iff.1 (h.cursor.symm.trans hcursor)
    rw [hnil, List.dropLast_nil, ← hnil]
    exact h
  · next hcursor =>
    have hlt : z.before.length - 1 < z.before.length := by
      rw [← h.cursor]
      omega
    refine ⟨?_, ?_, h.kept⟩
    · rw [Editor.backspace, h.input, h.cursor, List.eraseIdx_append_of_lt_length hlt,
        List.eraseIdx_length_sub_one]
    · rw [Editor.backspace, h.cursor, List.length_dropLast]

/-- A deletion takes the first character of the back. -/
theorem delete (h : e.Mirrors z stands) :
    (if e.cursor < e.input.length then e.delete else e).Mirrors
      ⟨z.before, z.after.tail⟩ stands := by
  split
  · refine ⟨?_, h.cursor, h.kept⟩
    rw [Editor.delete, h.input, h.cursor, List.eraseIdx_append_of_length_le (Nat.le_refl _),
      Nat.sub_self, List.eraseIdx_zero]
  · next hcursor =>
    -- with the cursor at the end there is nothing to drop
    have hnil : z.after = [] := by
      have hlength := congrArg List.length h.input
      rw [List.length_append, ← h.cursor] at hlength
      exact List.length_eq_zero_iff.1 (by omega)
    rw [hnil, List.tail_nil, ← hnil]
    exact h

/-- A move of the cursor shifts the zipper, at most to its ends. -/
theorem move (h : e.Mirrors z stands) (delta : Int) :
    (e.move delta).Mirrors (z.shift delta) stands := by
  have hmoved : (e.move delta).cursor ≤ (e.move delta).input.length := Nat.min_le_right _ _
  have hzipper : (e.move delta).zipper = z.shift delta := by
    rw [← h.zipper_eq]
    exact (Zipper.shift_opened h.cursor_le delta).symm
  rw [← hzipper, ← h.kept]
  exact of_cursor_le hmoved

/-- At the start the front is empty. -/
theorem home (h : e.Mirrors z stands) : e.home.Mirrors ⟨[], z.before ++ z.after⟩ stands :=
  ⟨h.input, rfl, h.kept⟩

/-- At the end the back is empty. -/
theorem toEnd (h : e.Mirrors z stands) :
    e.toEnd.Mirrors (.ended (z.before ++ z.after)) stands :=
  ended h.input (congrArg List.length h.input) h.kept

/-- A prompt empties the zipper, unless something was pasted since the last one. -/
theorem atPrompt (h : e.Mirrors z stands) :
    e.atPrompt.Mirrors (if stands then z else .ended []) false := by
  rw [Editor.atPrompt, h.kept]
  split
  · exact ⟨h.input, h.cursor, rfl⟩
  · exact nil

/-- A recalled line is the front, with nothing behind it. -/
theorem recalled (h : e.Mirrors z stands) (line? : Option String) :
    (Session.recalled e line?).Mirrors
      ((line?.map fun line => Zipper.ended line.toList).getD z) stands := by
  cases line? with
  | none => exact h
  | some line => exact ended rfl rfl h.kept

end Mirrors

end Editor

/-! ## Calls -/

namespace Session

/-- Whether a pasted text is to outlive the next prompt once the call has been answered, given
whether one was before. -/
def Call.leaves (stands : Bool) : Call → Bool
  | .paste _ => true
  | .echo _ | .drawPrompt | .start | .commit | .resetHard => false
  | _ => stands

end Session

/-- Every call changes the editor as it changes the zipper. -/
theorem Editor.Mirrors.perform {e : Editor} {z : Zipper} {stands : Bool} (h : e.Mirrors z stands)
    (history : History) (call : Session.Call) :
    (call.edited history e).Mirrors (z.act stands history call) (call.leaves stands) := by
  cases call with
  | insert c => exact h.insert c
  | paste text => exact h.paste text.toList
  | echo text => exact ended rfl rfl rfl
  | backspace => exact h.backspace
  | delete => exact h.delete
  | moveCursor delta => exact h.move delta
  | home => exact h.home
  | toEnd => exact h.toEnd
  | historyUp | historyDown => exact h.recalled _
  | drawPrompt | start => exact h.atPrompt
  | commit | resetHard => exact nil
  | stop | setBootMode | setBusy | changeDir | back | print | beginCapture | endCapture
    | renderInput | clearScreen | blink | resize => exact h

/-! ## Runs -/

namespace Session

/-- The call puts a text into the input that is to outlive the next prompt. -/
def Call.pastes : Call → Bool
  | .paste _ => true
  | _ => false

/-- The call replaces the input, draws a prompt or makes the input empty. -/
def Call.settles : Call → Bool
  | .echo _ | .drawPrompt | .start | .commit | .resetHard => true
  | _ => false

/-- A text was pasted after the latest call that replaced the input, drew a prompt or made the input
empty. -/
def pasteStands (calls : List Call) : Bool :=
  (calls.rtakeWhile fun call => !call.settles).any Call.pastes

/-- Whether a paste stands is up to the last call and to whether one stood before it. -/
theorem pasteStands_concat (calls : List Call) (call : Call) :
    pasteStands (calls ++ [call]) = call.leaves (pasteStands calls) := by
  have hleaves : ∀ stands, call.leaves stands = (!call.settles && (stands || call.pastes)) := by
    intro stands
    cases call <;> simp [Call.leaves, Call.settles, Call.pastes]
  rw [hleaves, pasteStands, pasteStands, List.rtakeWhile_concat]
  cases call.settles with
  | true => rfl
  | false => simp

/-- The editor of a new session mirrors a zipper however it is used, by induction on the calls. -/
theorem run_mirrors (settings : Settings) (frames : List Grid) (calls : List Call) :
    ∃ z, ((ofSettings settings frames).run calls).editor.Mirrors z (pasteStands calls) := by
  induction calls using List.reverseRecOn with
  | nil => exact ⟨.ended [], Editor.Mirrors.nil⟩
  | append_singleton calls call ih =>
    obtain ⟨z, hz⟩ := ih
    rw [run_concat, editor_perform, pasteStands_concat]
    exact ⟨_, hz.perform _ call⟩

/-- The line editor is a zipper. Whatever calls a session has answered, its cursor is in range, and
with what stands on either side of it, each further call acts as it does on the two lists; the line
that is committed is both of them. -/
theorem run_refines_zipper (settings : Settings) (frames : List Grid) (calls : List Call) :
    let s := (ofSettings settings frames).run calls
    s.editor.cursor ≤ s.editor.input.length ∧
      s.commit.1 = String.ofList (s.editor.before ++ s.editor.after) ∧
      ∀ call, (s.perform call).editor.zipper =
        s.editor.zipper.act (pasteStands calls) s.history call := by
  intro s
  obtain ⟨z, hz⟩ := run_mirrors settings frames calls
  refine ⟨hz.cursor_le, ?_, fun call => ?_⟩
  · rw [hz.before_eq, hz.after_eq, ← hz.input]
    rfl
  · rw [hz.zipper_eq, editor_perform]
    exact (hz.perform s.history call).zipper_eq

end Session

end SimTerm
