import SimTerm.Proofs.Session.Steady
import SimTerm.Terminal

/-!
# What a key does

There are many keys but few things that they do: a key that is neither Enter nor a shortcut edits
the line, browses the history, or does nothing. So it touches nothing but the line and the one row
of the grid that shows it; and while no input is accepted, there is but one press that does
anything: `press_touches`.
-/

namespace SimTerm.Terminal

/-- A key does nothing, edits the input, or takes a step through the history. -/
theorem editKey_cases (p : KeyPress) (s : Session) :
    editKey p s = s ∨ (∃ change, editKey p s = s.edit change) ∨
      ∃ step, step.2.entries = s.history.entries ∧ editKey p s = s.browse step := by
  -- one case for each key, in the order of the table
  unfold editKey
  split
  · unfold Session.backspace
    split
    · exact Or.inl rfl
    · exact Or.inr (Or.inl ⟨_, rfl⟩)
  · unfold Session.delete
    split
    · exact Or.inr (Or.inl ⟨_, rfl⟩)
    · exact Or.inl rfl
  · exact Or.inr (Or.inl ⟨_, rfl⟩)
  · exact Or.inr (Or.inl ⟨_, rfl⟩)
  · exact Or.inr (Or.inr ⟨_, s.history.entries_up, rfl⟩)
  · exact Or.inr (Or.inr ⟨_, s.history.entries_down, rfl⟩)
  · exact Or.inr (Or.inl ⟨_, rfl⟩)
  · exact Or.inr (Or.inl ⟨_, rfl⟩)
  · exact Or.inl rfl
  · split
    · unfold Session.insert
      split
      · exact Or.inl rfl
      · exact Or.inr (Or.inl ⟨_, rfl⟩)
    · exact Or.inl rfl

/-- Whatever a press comes to: a reboot, nothing, a clear screen, a submitted line, or an edit. -/
theorem press_induction {P : Terminal → Prop} {t : Terminal} (p : KeyPress) (hreboot : P t.reboot)
    (hdropped : P t) (hclear : P (t.onSession fun s => s.clearScreen.drawPrompt))
    (hsubmit : P t.submit.2) (hedit : P (t.onSession (editKey p))) : P (t.press p) := by
  unfold press
  split
  · exact hreboot
  · split
    · exact hdropped
    · split
      · exact hclear
      · split
        · exact hsubmit
        · exact hedit

/-- What every press keeps, typing keeps: the keys are pressed one after the other. -/
theorem type_induction {P : Terminal → Prop} (hpress : ∀ t p, P t → P (t.press p)) {t : Terminal}
    (h : P t) (text : String) : P (t.type text) := by
  unfold type
  induction text.toList generalizing t with
  | nil => exact h
  | cons c cs ih => exact ih (hpress t (KeyPress.typed c) h)

/-- A key that edits draws the prompt row and no other. -/
theorem editKey_editsLine (p : KeyPress) (s : Session) : s.EditsLine (editKey p s) := by
  rcases editKey_cases p s with heq | ⟨change, heq⟩ | ⟨step, hentries, heq⟩
  · rw [heq]
    exact .refl s
  · rw [heq]
    exact s.edit_editsLine change
  · rw [heq]
    exact s.browse_editsLine hentries

/-- A character is not typed while a modifier is held down. -/
theorem editKey_of_modified {p : KeyPress} {c : Char} (hkey : p.key = .char c)
    (hmodified : p.modifiers.any = true) (s : Session) : editKey p s = s := by
  have hprintable : p.printable? = none := by
    rw [KeyPress.printable?, hkey]
    exact if_pos hmodified
  rw [editKey, hkey]
  dsimp only
  rw [hprintable]

section

variable {t : Terminal} {p : KeyPress}

/-- While input is not accepted, only the key that reboots is taken. -/
theorem press_eq_self (hreboots : p.reboots = false) (haccepts : t.session.acceptsInput = false) :
    t.press p = t := by
  rw [press, hreboots, if_neg Bool.false_ne_true, haccepts]
  rfl

/-- A key that neither reboots nor clears nor submits edits. -/
theorem press_eq_editKey (hreboots : p.reboots = false) (haccepts : t.session.acceptsInput = true)
    (hclears : p.clearsScreen = false) (hkey : p.key ≠ .enter) :
    t.press p = t.onSession (editKey p) := by
  rw [press, hreboots, if_neg Bool.false_ne_true, haccepts, hclears, if_neg hkey]
  rfl

end

/-- While no input is accepted, a press that does not reboot changes nothing at all. Otherwise, if
it neither clears the screen nor submits the line, it leaves alone the files and what is stored of
them, the clipboard and everything else outside the session, and in the session the directories,
the lines entered, the place of the next output, and all rows but the one where the prompt stands;
and a character with a modifier is as good as no press. -/
theorem press_touches (t : Terminal) (p : KeyPress) (hreboots : p.reboots = false) :
    (t.session.acceptsInput = false → t.press p = t) ∧
      (t.session.acceptsInput = true → p.clearsScreen = false → p.key ≠ .enter →
        t.press p = { t with machine := { t.machine with session := (t.press p).session } } ∧
          t.session.EditsLine (t.press p).session ∧
          (∀ c, p.key = .char c → p.modifiers.any = true → t.press p = t)) := by
  refine ⟨press_eq_self hreboots, fun haccepts hclears hkey => ?_⟩
  rw [press_eq_editKey hreboots haccepts hclears hkey]
  refine ⟨rfl, editKey_editsLine p t.session, fun c hchar hmodified => ?_⟩
  rw [onSession, show t.machine.session = t.session from rfl,
    editKey_of_modified hchar hmodified]
  rfl

/-- The screen became smaller than the output on it, so that the next row of output stands below the
grid. The prompt is in the last row, and a step to the left draws this row anew and no other one;
Alt and a letter do nothing. -/
theorem press_touches_last_row :
    let start := powerOn (ofSettings { rows := 30, cols := 80, boot := false, execDelay := 0 } {} 0
      (.holding none) BootSequence.silent [] [])
    let t := (((start.runLine "about;about;about").2.type "echo a").resize 1 1)
    let u := t.press { key := .left }
    t.session.outRow = 13 ∧ t.session.screen.rows = 12 ∧ t.session.promptRow = 11 ∧
      u.machine.files = t.machine.files ∧ u.session.outRow = 13 ∧
      (∀ i, i ≠ 11 → u.session.screen.grid[i]? = t.session.screen.grid[i]?) ∧
      u.session.screen.grid[11]? ≠ t.session.screen.grid[11]? ∧
      t.press { key := .char 'x', modifiers := { alt := true } } = t := by
  intro start t u
  have haccepts : t.session.acceptsInput = true := by decide +kernel
  have hbelow : t.session.outRow = 13 := by decide +kernel
  have hrows : t.session.screen.rows = 12 := by decide +kernel
  have hrow : t.session.promptRow = 11 := by decide +kernel
  have hdrawn : u.session.screen.grid[11]? ≠ t.session.screen.grid[11]? := by decide +kernel
  have hu : u = t.press { key := .left } := rfl
  -- what is on the screen does not matter any more, and unfolding it would take long
  clear_value u t
  obtain ⟨helsewhere, hline, -⟩ :=
    (press_touches t { key := .left } rfl).2 haccepts rfl Key.noConfusion
  obtain ⟨-, -, htyped⟩ := (press_touches t { key := .char 'x', modifiers := { alt := true } } rfl).2
    haccepts rfl Key.noConfusion
  rw [← hu] at helsewhere hline
  refine ⟨hbelow, hrows, hrow, congrArg (·.machine.files) helsewhere, hline.outRow.trans hbelow,
    fun i hi => hline.row i (hrow ▸ hi), hdrawn, htyped 'x' rfl rfl⟩

end SimTerm.Terminal
