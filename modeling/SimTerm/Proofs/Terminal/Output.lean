import SimTerm.Proofs.Session.Printing
import SimTerm.Proofs.Terminal.Keys
import SimTerm.Proofs.Terminal.Submit

/-!
# The output of a submitted line

What stands above the new prompt after a line was submitted: `submit_rowsAbove`. The rows are the
last ones of an endless screen that showed the rows above the old prompt, the committed row, and
what the line printed. Where the line showed some input after its output had come to the end of the
screen, by pasting or by running a script, a prompt row stands there in the place of the last row of
output before it, and that row is lost.

This holds of every terminal that can be reached, because all of them have their prompt on the grid:
`Reached.atPrompt`, by one lemma for each kind of key press.
-/

namespace SimTerm

open Session

/-! ## Terminals that can be reached -/

namespace Terminal

/-- Terminals that were powered on and then given key presses, while the caret blinks and time
passes, the next pause is drawn, and other programs use the clipboard. -/
inductive Reached : Terminal → Prop
  | powerOn (settings : Settings) (storage : Storage) (now : Millis) (clipboard : Clipboard)
      (boot : BootSequence) (frames : List Grid) (pauses : List Pause) (zone : Calendar.Zone) :
      Reached (powerOn (ofSettings settings storage now clipboard boot frames pauses zone))
  | press {t : Terminal} (h : Reached t) (p : KeyPress) : Reached (t.press p)
  | blink {t : Terminal} (h : Reached t) : Reached t.blink
  | outside {t : Terminal} (h : Reached t) (now : Millis) (jitter : Nat) (clipboard : Clipboard) :
      Reached { t with
        jitter, machine := { t.machine with clipboard, files := { t.machine.files with now } } }

/-- A terminal that was typed on can be reached. -/
theorem Reached.type {t : Terminal} (h : Reached t) (text : String) : Reached (t.type text) :=
  type_induction (fun _ p hreached => hreached.press p) h text

end Terminal

namespace Session

/-- What leaves the screen, the place of the prompt and the modes alone. -/
theorem AtPrompt.of_eq {s t : Session} (h : s.AtPrompt) (hscreen : t.screen = s.screen)
    (houtRow : t.outRow = s.outRow) (hrunning : t.running = s.running)
    (hbootMode : t.bootMode = s.bootMode) : t.AtPrompt := by
  have hlt : t.outRow < t.screen.rows := by
    rw [hscreen, houtRow]
    exact h.outRow_lt
  have hsound : t.Sound := ⟨hscreen ▸ h.running.sound.screen, Nat.le_of_lt hlt⟩
  exact ⟨⟨hsound, hrunning.trans h.running.running, hbootMode.trans h.running.bootMode⟩, hlt⟩

theorem AtPrompt.renderInput {s : Session} (h : s.AtPrompt) : s.renderInput.AtPrompt := by
  refine ⟨⟨h.running.sound.renderInput, ?_, ?_⟩, ?_⟩
  · rw [renderInput_eq]
    exact h.running.running
  · rw [renderInput_eq]
    exact h.running.bootMode
  · rw [rows_renderInput, outRow_renderInput]
    exact h.outRow_lt

theorem AtPrompt.edit {s : Session} (h : s.AtPrompt) (change : Editor → Editor) :
    (s.edit change).AtPrompt := by
  have hedited : AtPrompt { s with editor := change s.editor } := h.of_eq rfl rfl rfl rfl
  exact hedited.renderInput

theorem AtPrompt.browse {s : Session} (h : s.AtPrompt) (step : Option String × History) :
    (s.browse step).AtPrompt := by
  obtain ⟨line?, history⟩ := step
  have hbrowsing : AtPrompt { s with history } := h.of_eq rfl rfl rfl rfl
  cases line? with
  | none => exact hbrowsing
  | some line => exact hbrowsing.edit (·.replace line.toList)

theorem AtPrompt.editKey {s : Session} (h : s.AtPrompt) (p : KeyPress) :
    (Terminal.editKey p s).AtPrompt := by
  rcases Terminal.editKey_cases p s with heq | ⟨change, heq⟩ | ⟨step, -, heq⟩
  · rw [heq]
    exact h
  · rw [heq]
    exact h.edit change
  · rw [heq]
    exact h.browse step

theorem AtPrompt.blink {s : Session} (h : s.AtPrompt) : s.blink.AtPrompt := by
  unfold Session.blink
  split
  · have hblinked : AtPrompt { s with caretVisible := !s.caretVisible } :=
      h.of_eq rfl rfl rfl rfl
    exact hblinked.renderInput
  · exact h

/-- A new prompt in a running session. -/
theorem drawPrompt_atPrompt {s : Session} (h : s.Running) : s.drawPrompt.AtPrompt := by
  have hprompt := drawPrompt_prompted h.sound
  exact ⟨⟨hprompt.sound, hprompt.running.trans h.running, hprompt.bootMode.trans h.bootMode⟩,
    hprompt.outRow_lt⟩

end Session

namespace Terminal

/-- After power on the prompt is on the grid, however long the boot log was. -/
theorem powerOn_atPrompt (settings : Settings) (storage : Storage) (now : Millis)
    (clipboard : Clipboard) (boot : BootSequence) (frames : List Grid) (pauses : List Pause)
    (zone : Calendar.Zone) :
    AtPrompt (powerOn (ofSettings settings storage now clipboard boot frames pauses zone)) := by
  have hnew : Sound (Session.ofSettings settings frames) :=
    ⟨Screen.ofSize_shaped _ _ _, Nat.zero_le _⟩
  -- with a boot log the screen may be full before the first prompt, and without one it is empty
  unfold powerOn
  split
  · obtain ⟨events, hboot⟩ := Machine.runBoot_extends
      (m := (ofSettings settings storage now clipboard boot frames pauses zone).machine) hnew false
    exact ⟨drawPrompt_atPrompt ⟨⟨hboot.sound.screen, hboot.sound.outRow_le⟩, rfl, rfl⟩, rfl⟩
  · exact ⟨drawPrompt_atPrompt ⟨⟨hnew.screen, hnew.outRow_le⟩, rfl, rfl⟩, rfl⟩

/-- After every key press the prompt is on the grid. -/
theorem AtPrompt.press {t : Terminal} (h : t.AtPrompt) (p : KeyPress) : (t.press p).AtPrompt := by
  obtain ⟨_, hfollows, hlt⟩ := Machine.reboot_prompted h.session.running.sound
  obtain ⟨_, hsubmits⟩ := submit_submits h
  exact press_induction (P := Terminal.AtPrompt) p ⟨⟨hfollows.toRunning, hlt⟩, h.registry⟩ h
    ⟨drawPrompt_atPrompt (clearScreen_follows h.session.running).toRunning, h.registry⟩
    hsubmits.atPrompt ⟨h.session.editKey p, h.registry⟩

/-- Every terminal that can be reached has its prompt on the grid. -/
theorem Reached.atPrompt {t : Terminal} (h : Reached t) : t.AtPrompt := by
  induction h with
  | powerOn => exact powerOn_atPrompt _ _ _ _ _ _ _ _
  | press _ p ih => exact ih.press p
  | blink _ ih => exact ⟨ih.session.blink, ih.registry⟩
  | outside _ now jitter clipboard ih => exact ⟨ih.session, ih.registry⟩

/-! ## What stands above the new prompt -/

/-- What a line did to the screen is told by some events, of which a printed line adds a row for each
piece of it that fills a row or is left. Unless the line wiped the screen, the rows above the new
prompt are the last rows of an endless screen that went through these events. They are the last rows
of what stood above the old prompt, the committed row and all printed rows, and no prompt row was
drawn over output, exactly if no input was shown after output had come to the end of the screen. -/
theorem submit_rowsAbove {t : Terminal} (h : Reached t) :
    (∀ line : String, ∃ pieces, CutInto t.session.screen.cols line.toList pieces ∧
      printedRows t.session.screen.cols [.printed line] =
        pieces.map (Row.fit · t.session.screen.cols)) ∧
    ∃ events, t.submit.2.session.log = events.reverse ++ t.session.log ∧ (.wiped ∉ events →
      let s := t.session
      let after := t.submit.2.session
      let seen := s.rowsAbove ++ [s.committedRow]
      let printed := printedRows s.screen.cols events
      after.rowsAbove = lastRows after.outRow (scroll s.screen.cols seen events) ∧
        after.outRow ≤ (seen ++ printed).length ∧
        (after.rowsAbove = lastRows after.outRow (seen ++ printed) ∧
            (∀ row, .overdrawn row ∉ events) ↔
          ¬ Late s.screen.rows s.screen.cols (min (s.outRow + 1) (s.screen.rows - 1)) events)) := by
  have hprompt := h.atPrompt
  have hcols := hprompt.session.running.sound.screen.cols_pos
  obtain ⟨events, hsubmits⟩ := submit_submits hprompt
  refine ⟨fun line => ⟨_, wrapped_cut hcols line.toList, List.append_nil _⟩, events,
    hsubmits.log, fun hwiped => ?_⟩
  -- the rows above the old prompt are what the endless screen showed so far
  have hshown := hsubmits.shows hwiped _ (shows_rowsAbove hprompt.session.running.sound)
  have hlate := hsubmits.overdrawn hwiped
  refine ⟨hshown.above, ?_, fun hkept => ?_, fun hnot => ?_⟩
  · have henough := hshown.enough
    rw [length_scroll (by simp)] at henough
    rw [List.length_append]
    exact henough
  · rintro hls
    obtain ⟨row, hrow⟩ := hlate.2 hls
    exact hkept.2 row hrow
  · have hnone : ∀ row, .overdrawn row ∉ events := fun row hrow => hnot (hlate.1 ⟨row, hrow⟩)
    refine ⟨?_, hnone⟩
    rw [← scroll_eq_append hnone]
    exact hshown.above

/-- A terminal of the smallest size that was just powered on, with a letter in the clipboard. -/
def small : Terminal :=
  powerOn (ofSettings { rows := 12, cols := 40, boot := false, execDelay := 0 } {} 0
    (.holding (some "x")) BootSequence.silent [] [])

theorem reached_small : Reached small :=
  .powerOn _ _ _ _ _ _ _ _

/-- A printed line stands below the line that printed it. -/
theorem submit_rowsAbove_echo :
    let t := small.type "echo a"
    let after := t.submit.2.session
    after.rowsAbove = lastRows after.outRow
      (t.session.rowsAbove ++ [t.session.committedRow] ++ printedRows 40 [.printed "a"]) := by
  intro t after
  obtain ⟨-, events, hlog, hrows⟩ := submit_rowsAbove (reached_small.type "echo a")
  have hsame : t.submit.2.session.log = [.printed "a"] ∧ t.session.log = [] := by decide +kernel
  have hevents : events = [.printed "a"] := by
    rw [hsame.1, hsame.2, List.append_nil] at hlog
    rw [← events.reverse_reverse, ← hlog, List.reverse_singleton]
  subst hevents
  obtain ⟨-, -, hkept⟩ := hrows (by decide)
  have hcols : t.session.screen.cols = 40 := by decide +kernel
  rw [← hcols]
  exact (hkept.2 (by decide +kernel)).1

/-- A line that fills a small screen with output and then pastes. -/
def crowded : Terminal :=
  small.type "about;about;about;paste"

/-- The pasted letter is drawn over the last row of output. -/
theorem pasted_over_output :
    Reached crowded ∧ crowded.session.log = [] ∧
      let after := crowded.submit.2.session
      .wiped ∉ after.log ∧
        after.rowsAbove ≠ lastRows after.outRow (crowded.session.rowsAbove ++
          [crowded.session.committedRow] ++ printedRows 40 after.log.reverse) :=
  ⟨reached_small.type _, by decide +kernel⟩

end Terminal

end SimTerm
