import SimTerm.Proofs.Shell.SingleLine
import SimTerm.Proofs.Terminal.InStep

/-!
# The input is a single line

Keys do not bring a line break into the input, as the editor takes no character that would end the
line; neither do the history, scripts or bookmarks of a terminal that started from a default tree.
But a text from the clipboard is inserted as it is, and the output of a stage that was put into the
clipboard may have several lines. So the input is a single line, like the lines entered before and
the row of the prompt, as long as every text that was pasted is one: `input_unbroken`.
-/

namespace SimTerm

open Session Text

namespace Terminal

/-! ## Calls -/

/-- A call that only changes the session. -/
theorem onSession_continues {t : Terminal} {change : Session → Session}
    (hlogs : Logs (fun _ => True) t.session (change t.session))
    (hkept : t.session.SingleLine → (change t.session).SingleLine) :
    Machine.Continues [] t.machine (t.onSession change).machine :=
  ⟨hlogs, fun _ _ h => ⟨hkept h.session, h.files⟩⟩

theorem editKey_logs (p : KeyPress) (s : Session) : Logs (fun _ => True) s (editKey p s) := by
  rcases editKey_cases p s with heq | ⟨change, heq⟩ | ⟨⟨line?, history⟩, -, heq⟩
  · rw [heq]
    exact Logs.of_eq rfl
  · rw [heq]
    exact edit_logs (fun _ _ => trivial) s change
  · rw [heq]
    cases line? with
    | none => exact Logs.of_eq rfl
    | some line => exact edit_logs (fun _ _ => trivial) { s with history } (·.replace line.toList)

/-- A key that edits keeps single lines. -/
theorem editKey_singleLine (p : KeyPress) {s : Session} (h : s.SingleLine) :
    (editKey p s).SingleLine := by
  -- one case for each key, in the order of the table
  unfold editKey
  split
  · exact h.backspace
  · exact h.delete
  · exact h.edit (·.move (-1)) h.input
  · exact h.edit (·.move 1) h.input
  · exact h.historyUp
  · exact h.historyDown
  · exact h.edit Editor.home h.input
  · exact h.edit Editor.toEnd h.input
  · exact h
  · split
    · next c _ => exact h.insert c
    · exact h

/-- A line runs as the law says, given that it is unbroken. -/
theorem lineLeaves_continues {t : Terminal} (hregistry : t.registry = Commands.registry) :
    Machine.Continues [t.session.commit.1] t.lineEnvironment.toMachine t.lineLeaves.toMachine := by
  rw [lineLeaves, hregistry]
  exact singleLine_law.line Registry.nesting 0 t.session.commit.1 t.lineEnvironment

/-- Before a line runs, the input becomes a line that was entered. -/
theorem lineEnvironment_singleLine {t : Terminal} (h : t.machine.SingleLine) :
    t.lineEnvironment.toMachine.SingleLine := by
  refine ⟨?_, t.files_lineEnvironment.symm ▸ h.files⟩
  rw [session_lineEnvironment]
  exact ⟨h.session.commit.input, h.session.commit.surroundings⟩

/-- After it there may be a new prompt. -/
theorem submit_prompts (t : Terminal) :
    Logs (fun _ => True) t.lineLeaves.session t.submit.2.session ∧
      (t.lineLeaves.session.SingleLine → t.submit.2.session.SingleLine) := by
  rcases session_submit_cases t with hsession | hsession
  · rw [hsession]
    exact ⟨drawPrompt_logs (fun _ _ => trivial) _, fun h =>
      SingleLine.drawPrompt ⟨h.input, h.surroundings⟩⟩
  · rw [hsession]
    exact ⟨Logs.of_eq rfl, fun h => ⟨h.input, h.surroundings⟩⟩

/-- A submitted line is the input, so it is unbroken if the input is. -/
theorem submit_continues {t : Terminal} (hregistry : t.registry = Commands.registry) :
    Machine.Continues [] t.machine t.submit.2.machine := by
  have hline := lineLeaves_continues hregistry
  have hfiles := t.files_submit
  obtain ⟨hprompted, hprompt⟩ := submit_prompts t
  have hbegun : Logs (fun _ => True) t.session t.lineEnvironment.session := by
    rw [session_lineEnvironment]
    exact Logs.of_eq t.session.log_commit
  -- how the line is run does not matter any more, and unfolding it would take long
  generalize t.submit.2 = u at *
  refine ⟨(hbegun.trans hline.logs).trans hprompted, fun hpastes _ h => ?_⟩
  have hinput : Unbroken t.session.commit.1.toList := by
    have hcommitted : t.session.commit.1.toList = t.session.editor.input := String.toList_ofList
    rw [hcommitted]
    exact h.session.input
  have hran := hline.singleLine (fun text htext => hpastes text (hprompted.mem htext))
    (List.forall_mem_singleton.2 hinput) (lineEnvironment_singleLine h)
  exact ⟨hprompt hran.session, hfiles.symm ▸ hran.files⟩

theorem press_continues {t : Terminal} (hregistry : t.registry = Commands.registry) (p : KeyPress) :
    Machine.Continues [] t.machine (t.press p).machine := by
  have hreboot : Machine.Continues [] t.machine t.reboot.machine :=
    ⟨Machine.reboot_logs (fun _ _ => trivial) t.machine, fun _ _ h => h.reboot⟩
  have hclear : Machine.Continues [] t.machine
      (t.onSession fun s => s.clearScreen.drawPrompt).machine :=
    onSession_continues
      ((clearScreen_logs (fun _ _ => trivial) _).trans (drawPrompt_logs (fun _ _ => trivial) _))
      fun h => h.clearScreen.drawPrompt
  -- a reboot, nothing, Ctrl-L, Enter, an editing key
  exact press_induction (P := fun u => Machine.Continues [] t.machine u.machine) p hreboot
    (.refl [] t.machine) hclear (submit_continues hregistry)
    (onSession_continues (editKey_logs p _) (editKey_singleLine p))

/-- Typing goes on from the machine before it, by induction on the text. -/
theorem type_continues {t : Terminal} (h : t.Displaying) (text : String) :
    Machine.Continues [] t.machine (t.type text).machine := by
  have htyped : (t.type text).Displaying ∧
      Machine.Continues [] t.machine (t.type text).machine :=
    type_induction (P := fun u => u.Displaying ∧ Machine.Continues [] t.machine u.machine)
      (fun _ p hu => ⟨hu.1.press p, hu.2.trans (press_continues hu.1.registry p)⟩)
      ⟨h, .refl [] t.machine⟩ text
  exact htyped.2

theorem runLine_continues {t : Terminal} (h : t.Displaying) (line : String) :
    Machine.Continues [] t.machine (t.runLine line).2.machine := by
  unfold Terminal.runLine
  split
  · exact (type_continues h line).trans (submit_continues (h.type line).registry)
  · exact .refl [] t.machine

theorem blink_continues (t : Terminal) : Machine.Continues [] t.machine t.blink.machine :=
  onSession_continues (blink_logs (fun _ _ => trivial) t.session) fun h => h.blink

theorem resize_continues (t : Terminal) (rows cols : Nat) :
    Machine.Continues [] t.machine (t.resize rows cols).machine := by
  refine onSession_continues ?_ fun h => ?_
  · dsimp only
    split
    · exact renderInput_logs (fun _ _ => trivial) (t.session.resize rows cols)
    · exact Logs.of_eq rfl
  · dsimp only
    split
    · exact (h.resize rows cols).renderInput
    · exact h.resize rows cols

/-! ## Every use -/

/-- However a terminal is used, it goes on from the machine it started with. -/
theorem Used.continues {start t : Terminal} (h : Used start t) (hstart : start.Displaying) :
    Machine.Continues [] start.machine t.machine := by
  induction h with
  | refl => exact .refl [] start.machine
  | press h p ih => exact ih.trans (press_continues (h.displaying hstart).registry p)
  | type h text ih => exact ih.trans (type_continues (h.displaying hstart) text)
  | runLine h line ih => exact ih.trans (runLine_continues (h.displaying hstart) line)
  | blink _ ih => exact ih.trans (blink_continues _)
  | resize _ rows cols ih => exact ih.trans (resize_continues _ rows cols)
  | outside _ now jitter clipboard ih =>
    refine ih.trans ⟨Logs.of_eq rfl, fun _ _ h => ⟨h.session, ?_⟩⟩
    exact ⟨h.files.isTree, h.files.sorted, h.files.targets, h.files.contents⟩

/-- A terminal that was powered on with unbroken settings, a default tree and no bookmarks is one of
single lines, whatever it showed while it booted. -/
theorem powerOn_singleLine {settings : Settings} {storage : Storage} {now : Millis}
    {clipboard : Clipboard} {boot : BootSequence} {frames : List Grid} {pauses : List Pause}
    {zone : Calendar.Zone}
    (hsettings : ∀ text ∈ [settings.user, settings.host, settings.promptTail, settings.startDir],
      Unbroken text.toList)
    (hroot : (FileSystem.open storage now (treeOptions settings)).root =
      (treeOptions settings).defaultTree now)
    (hmarks : (FileSystem.open storage now (treeOptions settings)).bookmarks = []) :
    (powerOn
      (ofSettings settings storage now clipboard boot frames pauses zone)).machine.SingleLine := by
  have hfiles : (FileSystem.open storage now (treeOptions settings)).Holds
      (fun target => Unbroken target.toList) ReturnFree := .of_default _ now hroot hmarks
  have hnew : (Session.ofSettings settings frames).SingleLine := by
    have hslash : Unbroken "/".toList := by decide
    refine ⟨unbroken_nil, ?_⟩
    simp only [List.forall_mem_cons] at hsettings
    obtain ⟨huser, hhost, htail, hdir, hnone⟩ := hsettings
    exact List.forall_mem_cons.2 ⟨hdir, List.forall_mem_cons.2 ⟨hslash,
      List.forall_mem_cons.2 ⟨huser, List.forall_mem_cons.2 ⟨hhost,
        List.forall_mem_cons.2 ⟨htail, hnone⟩⟩⟩⟩⟩
  -- the boot log is printed, and what is printed does not come into the input
  unfold powerOn
  split
  · refine ⟨(Machine.runBoot_singleLine hnew false).start, ?_⟩
    exact (Machine.files_runBoot _ false).symm ▸ hfiles
  · exact ⟨hnew.start, hfiles⟩

/-- However a terminal with unbroken settings, a default tree and no bookmarks was used since it was
powered on: if every text that was pasted is unbroken, so are the input, the lines entered before,
and the row on the screen where the prompt stands. -/
theorem input_unbroken {settings : Settings} {storage : Storage} {now : Millis}
    {clipboard : Clipboard} {boot : BootSequence} {frames : List Grid} {pauses : List Pause}
    {zone : Calendar.Zone} {t : Terminal}
    (hsettings : ∀ text ∈ [settings.user, settings.host, settings.promptTail, settings.startDir],
      Unbroken text.toList)
    (hroot : (FileSystem.open storage now (treeOptions settings)).root =
      (treeOptions settings).defaultTree now)
    (hmarks : (FileSystem.open storage now (treeOptions settings)).bookmarks = [])
    (h : Used (powerOn (ofSettings settings storage now clipboard boot frames pauses zone)) t)
    (hpastes : t.session.PastesUnbroken) :
    Unbroken t.session.editor.input ∧
      (∀ line ∈ t.session.history.entries, Unbroken line.toList) ∧
      ∃ row, t.session.screen.grid[min t.session.outRow (t.session.screen.rows - 1)]? = some row ∧
        Unbroken row := by
  have hstart := powerOn_displaying settings storage now clipboard boot frames pauses zone
  have hkept := (h.continues hstart).singleLine hpastes (List.forall_mem_nil _)
    (powerOn_singleLine hsettings hroot hmarks)
  exact ⟨hkept.session.input, hkept.session.entries, t.session.inputRow,
    (h.displaying hstart).inStep.shows, hkept.session.inputRow⟩

/-- A terminal with a default tree in memory and an empty clipboard. -/
def emptyHanded : Terminal :=
  powerOn (ofSettings { rows := 12, cols := 40, boot := false, execDelay := 0 } {} 0
    (.holding none) BootSequence.silent [] [])

/-- One line of output was put into the clipboard and pasted into another. -/
theorem input_unbroken_pasted_line :
    let t := ((emptyHanded.runLine "echo a b | clip").2.runLine "echo c; paste").2
    Used emptyHanded t ∧ t.session.PastesUnbroken ∧ .pasted "a b" ∈ t.session.log ∧
      t.session.editor.input = "a b".toList ∧ Unbroken t.session.editor.input := by
  intro t
  have hused : Used emptyHanded t := .runLine (.runLine .refl _) _
  have hpastes : t.session.PastesUnbroken := by decide +kernel
  exact ⟨hused, hpastes, by decide +kernel, by decide +kernel,
    (input_unbroken (by decide) rfl rfl hused hpastes).1⟩

/-- Several lines of output come into the input when they are pasted. -/
theorem pasted_lines_in_input :
    let t := ((emptyHanded.runLine "about | clip").2.runLine "paste").2
    emptyHanded.machine.files.root = (treeOptions emptyHanded.settings).defaultTree 0 ∧
      emptyHanded.machine.files.bookmarks = [] ∧ emptyHanded.machine.clipboard = .holding none ∧
      Used emptyHanded t ∧ '\n' ∈ t.session.editor.input :=
  ⟨rfl, rfl, rfl, .runLine (.runLine .refl _) _, by decide +kernel⟩

end Terminal

end SimTerm
