import SimTerm.Proofs.Session.InStep
import SimTerm.Proofs.Session.Steady
import SimTerm.Proofs.Text.Unbroken

/-!
# Sessions of single lines

In a session of *single lines* the input is unbroken, and so are the texts around it: the
directories, the parts of the prompt, and the lines entered before. Then the prompt row is unbroken
too. Whatever is done to such a session, what comes in must be unbroken to keep it so, and nothing
else matters: single characters are checked before they are put in, and the history gives back what
was entered.
-/

namespace SimTerm

open Text

/-! ## Editing -/

namespace Editor

variable {e : Editor}

/-- Nothing is lost of a text that is put in, nor of what it is put into. -/
theorem unbroken_put {text : List Char} :
    Unbroken (e.put text).input ↔ Unbroken e.input ∧ Unbroken text := by
  have hsplit : Unbroken e.input ↔ Unbroken e.before ∧ Unbroken e.after := by
    rw [← unbroken_append, before, after, List.take_append_drop]
  rw [put, hsplit, unbroken_append, unbroken_append]
  exact ⟨fun ⟨⟨hbefore, htext⟩, hafter⟩ => ⟨⟨hbefore, hafter⟩, htext⟩,
    fun ⟨⟨hbefore, hafter⟩, htext⟩ => ⟨⟨hbefore, htext⟩, hafter⟩⟩

/-- Taking away the character before the cursor brings in no line break. -/
theorem backspace_unbroken (h : Unbroken e.input) : Unbroken e.backspace.input :=
  h.subset (List.eraseIdx_sublist _ _).subset

theorem delete_unbroken (h : Unbroken e.input) : Unbroken e.delete.input :=
  h.subset (List.eraseIdx_sublist _ _).subset

/-- What the editor keeps through a prompt has no line break if its input has none. -/
theorem atPrompt_unbroken (h : Unbroken e.input) : Unbroken e.atPrompt.input := by
  unfold atPrompt
  split
  · exact h
  · exact unbroken_nil

end Editor

namespace Session

/-- The texts around the input: the directories, the parts of the prompt, the lines entered. -/
def surroundings (s : Session) : List String :=
  s.cwd :: s.previousDir.getD "/" :: s.user :: s.host :: s.promptTail :: s.history.entries

/-- The input and all texts around it are unbroken. -/
structure SingleLine (s : Session) : Prop where
  input : Unbroken s.editor.input
  surroundings : ∀ text ∈ s.surroundings, Unbroken text.toList

namespace SingleLine

variable {s : Session}

theorem cwd (h : s.SingleLine) : Unbroken s.cwd.toList :=
  h.surroundings _ (by simp [Session.surroundings])

/-- The directory that is gone back to is unbroken, the root included. -/
theorem previousDir (h : s.SingleLine) : Unbroken (s.previousDir.getD "/").toList :=
  h.surroundings _ (by simp [Session.surroundings])

theorem user (h : s.SingleLine) : Unbroken s.user.toList :=
  h.surroundings _ (by simp [Session.surroundings])

theorem entries (h : s.SingleLine) : ∀ line ∈ s.history.entries, Unbroken line.toList :=
  fun line hline => h.surroundings line (by simp [Session.surroundings, hline])

/-! ## Drawing -/

/-- A prompt is unbroken, as all texts it is made from are. -/
theorem prompt (h : s.SingleLine) : Unbroken s.prompt.toList := by
  have hhost : Unbroken s.host.toList := h.surroundings _ (by simp [Session.surroundings])
  have htail : Unbroken s.promptTail.toList := h.surroundings _ (by simp [Session.surroundings])
  have hdir : Unbroken (if s.cwd = Path.home s.user then "~" else s.cwd).toList := by
    split
    · decide
    · exact h.cwd
  simp only [Session.prompt, String.toList_append, unbroken_append]
  exact ⟨⟨⟨⟨⟨h.user, by decide⟩, hhost⟩, by decide⟩, hdir⟩, htail⟩

/-- The row that shows the input is a line of its own. -/
theorem inputRow (h : s.SingleLine) : Unbroken s.inputRow := by
  have hspaces : Unbroken (List.replicate s.screen.cols ' ') := by
    intro c hc
    rw [List.eq_of_mem_replicate hc]
    rfl
  have hshown : Unbroken (s.editor.input.take (s.screen.cols - s.prompt.toList.length)) :=
    h.input.subset (List.take_subset _ _)
  have htext := unbroken_append.2 ⟨unbroken_append.2 ⟨h.prompt, hshown⟩, hspaces⟩
  intro c hc
  rcases List.mem_or_eq_of_mem_set hc with hrow | rfl
  · exact htext c (List.mem_of_mem_take hrow)
  · split <;> rfl

theorem print (h : s.SingleLine) (line : String) : (s.print line).SingleLine := by
  rw [print_eq, foldl_putRow_eq]
  exact ⟨h.input, h.surroundings⟩

theorem renderInput (h : s.SingleLine) : s.renderInput.SingleLine := by
  rw [renderInput_eq]
  exact ⟨h.input, h.surroundings⟩

/-- A new prompt keeps nothing but unbroken input. -/
theorem drawPrompt (h : s.SingleLine) : s.drawPrompt.SingleLine := by
  rw [drawPrompt_eq, renderInput_eq, ensureRow_eq]
  exact ⟨Editor.atPrompt_unbroken h.input, h.surroundings⟩

theorem clearScreen (h : s.SingleLine) : s.clearScreen.SingleLine :=
  ⟨h.input, h.surroundings⟩

theorem blink (h : s.SingleLine) : s.blink.SingleLine := by
  have hblinked : SingleLine { s with caretVisible := !s.caretVisible } :=
    ⟨h.input, h.surroundings⟩
  unfold Session.blink
  split
  · exact hblinked.renderInput
  · exact h

theorem resize (h : s.SingleLine) (rows cols : Nat) : (s.resize rows cols).SingleLine :=
  ⟨h.input, h.surroundings⟩

/-! ## Changing the input and the texts around it -/

/-- An edit keeps single lines if what it leaves in the input is unbroken. -/
theorem edit (h : s.SingleLine) (change : Editor → Editor)
    (hchange : Unbroken (change s.editor).input) : (s.edit change).SingleLine := by
  have hedited : SingleLine { s with editor := change s.editor } := ⟨hchange, h.surroundings⟩
  exact hedited.renderInput

/-- Typing brings in no line break, as it drops them. -/
theorem insert (h : s.SingleLine) (c : Char) : (s.insert c).SingleLine := by
  unfold Session.insert
  split
  · exact h
  · next hc =>
    have hone : Unbroken [c] := List.forall_mem_singleton.2 (Bool.eq_false_iff.2 hc)
    exact h.edit (·.put [c]) (Editor.unbroken_put.2 ⟨h.input, hone⟩)

/-- Pasting keeps single lines if what is pasted is unbroken. -/
theorem paste (h : s.SingleLine) {text : String} (htext : Unbroken text.toList) :
    (s.paste text).SingleLine := by
  have hrecorded : (s.record (.pasted text)).SingleLine := ⟨h.input, h.surroundings⟩
  exact hrecorded.edit (·.paste text.toList) (Editor.unbroken_put.2 ⟨h.input, htext⟩)

/-- Showing a script line keeps single lines if the line is unbroken. -/
theorem echo (h : s.SingleLine) {text : String} (htext : Unbroken text.toList) :
    (s.echo text).SingleLine := by
  have hrecorded : (s.record (.echoed text)).SingleLine := ⟨h.input, h.surroundings⟩
  exact hrecorded.edit (fun _ => Editor.echo text.toList) htext

theorem changeDir (h : s.SingleLine) {dir : String} (hdir : Unbroken dir.toList) :
    (s.changeDir dir).SingleLine := by
  refine ⟨h.input, ?_⟩
  -- the new directory stands in front of the old ones, of which the one left last is forgotten
  obtain ⟨hcwd, hothers⟩ := List.forall_mem_cons.1 h.surroundings
  obtain ⟨-, hrest⟩ := List.forall_mem_cons.1 hothers
  exact List.forall_mem_cons.2 ⟨hdir, List.forall_mem_cons.2 ⟨hcwd, hrest⟩⟩

/-- Other lines to go back to, and only these. -/
theorem withHistory (h : s.SingleLine) {history : History}
    (hentries : ∀ line ∈ history.entries, Unbroken line.toList) :
    SingleLine { s with history } := by
  refine ⟨h.input, ?_⟩
  obtain ⟨hcwd, hprevious, huser, hhost, htail, -⟩ : _ ∧ _ ∧ _ ∧ _ ∧ _ ∧ _ := by
    simpa only [Session.surroundings, List.forall_mem_cons] using h.surroundings
  simp only [Session.surroundings, List.forall_mem_cons]
  exact ⟨hcwd, hprevious, huser, hhost, htail, hentries⟩

/-- A step through the history keeps single lines if the entries are unbroken. -/
theorem browse (h : s.SingleLine) {step : Option String × History}
    (hline : ∀ line, step.1 = some line → Unbroken line.toList)
    (hentries : step.2.entries = s.history.entries) : (s.browse step).SingleLine := by
  obtain ⟨line?, history⟩ := step
  have hbrowsing : SingleLine { s with history } :=
    h.withHistory fun line hmem => h.entries line (hentries ▸ hmem)
  cases line? with
  | none => exact hbrowsing
  | some line => exact hbrowsing.edit (·.replace line.toList) (hline line rfl)

theorem backspace (h : s.SingleLine) : s.backspace.SingleLine := by
  unfold Session.backspace
  split
  · exact h
  · exact h.edit Editor.backspace (Editor.backspace_unbroken h.input)

theorem delete (h : s.SingleLine) : s.delete.SingleLine := by
  unfold Session.delete
  split
  · exact h.edit Editor.delete (Editor.delete_unbroken h.input)
  · exact h

/-- Going up recalls an entry, and the entries are unbroken. -/
theorem historyUp (h : s.SingleLine) : s.historyUp.SingleLine := by
  refine h.browse (fun line hline => ?_) s.history.entries_up
  unfold History.up at hline
  split at hline
  · cases hline
  · exact h.entries line (List.mem_of_getElem? hline)

theorem historyDown (h : s.SingleLine) : s.historyDown.SingleLine := by
  refine h.browse (fun line hline => ?_) s.history.entries_down
  unfold History.down at hline
  split at hline
  · cases hline
  · split at hline
    · exact h.entries line (List.mem_of_getElem? hline)
    · obtain rfl : "" = line := Option.some.inj hline
      exact unbroken_nil

/-- The committed input becomes a line that was entered. -/
theorem commit (h : s.SingleLine) : s.commit.2.SingleLine := by
  have hready : SingleLine { s with editor := {} } := ⟨unbroken_nil, h.surroundings⟩
  have hcommitted : s.commit.2 =
      { { s with editor := {} } with
        caretVisible := s.commit.2.caretVisible, screen := s.commit.2.screen
        outRow := s.commit.2.outRow
        history := s.history.push (String.ofList s.editor.input) } := by
    unfold Session.commit
    dsimp only
    rw [ensureRow_eq]
    rfl
  have hentries : ∀ line ∈ (s.history.push (String.ofList s.editor.input)).entries,
      Unbroken line.toList := by
    unfold History.push
    split
    · exact h.entries
    · refine List.forall_mem_append.2 ⟨h.entries, List.forall_mem_singleton.2 ?_⟩
      rw [String.toList_ofList]
      exact h.input
  have hpushed := hready.withHistory hentries
  rw [hcommitted]
  exact ⟨hpushed.input, hpushed.surroundings⟩

theorem start (h : s.SingleLine) : s.start.SingleLine := by
  have hrunning : SingleLine { s with running := true } := ⟨h.input, h.surroundings⟩
  exact hrunning.drawPrompt

end SingleLine

end Session

namespace Machine

/-- Booting empties the input and keeps the texts around it. -/
theorem runBoot_singleLine {m : Machine} (h : m.session.SingleLine) (reboot : Bool) :
    (m.runBoot reboot).session.SingleLine :=
  runBoot_induction (P := Session.SingleLine) ⟨unbroken_nil, h.surroundings⟩
    (fun _ line hs => hs.print line) (fun _ hs => hs.blink)
    (fun _ hs => ⟨hs.input, hs.surroundings⟩) reboot

/-- A reboot keeps single lines, whatever its boot sequence prints. -/
theorem reboot_singleLine {m : Machine} (h : m.session.SingleLine) :
    m.reboot.session.SingleLine := by
  have hstopped : m.session.stop.SingleLine := ⟨h.input, h.surroundings⟩
  have hbooted := runBoot_singleLine (m := { m with session := m.session.stop }) hstopped true
  exact hbooted.start

end Machine

end SimTerm
