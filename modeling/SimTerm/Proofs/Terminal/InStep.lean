import SimTerm.Proofs.Session.InStep
import SimTerm.Proofs.Terminal.Keys
import SimTerm.Proofs.Terminal.Submit

/-!
# What is seen of a terminal

A terminal that was powered on may be used in any order: keys are pressed, lines are run, the caret
blinks, the size changes. Whatever is done, afterwards the grid is what was seen last and shows the
prompt and the input where the prompt stands: `display_in_step`. A change of the size may leave the
next row of output below the grid; the prompt then stands in the last row.

One lemma for each call says that it keeps a terminal `Displaying`. Lines are the only calls that
change the session in many ways before the prompt is drawn again, and it is enough that they leave
it running, on a grid of the right size.
-/

namespace SimTerm

open Session

/-! ## Lines -/

/-- A session that is live stays so. -/
def Environment.StaysLive (e f : Environment) : Prop :=
  e.session.Live → f.session.Live

/-- Every step of a command leaves a live session live. -/
theorem commandStep_staysLive {e f : Environment} (hstep : CommandStep e f) : e.StaysLive f := by
  intro h
  cases hstep with
  | print line => exact h.print line
  | echo line =>
    have hrecorded : (e.session.record (.echoed line)).Live := ⟨h.screen, h.running⟩
    exact hrecorded.edit fun _ => Editor.echo line.toList
  | paste text hread =>
    have hrecorded : (e.session.record (.pasted text)).Live := ⟨h.screen, h.running⟩
    exact hrecorded.edit (·.paste text.toList)
  | clearScreen => exact h.clearScreen
  | changeDir path => exact ⟨h.screen, h.running⟩
  | files call => exact h
  | clip text clipboard hwrite => exact h
  | reboot => exact (Machine.reboot_live h.screen).1
  | charge => exact h
  | deeper => exact h
  | shallower => exact h

instance : LineClosed Environment.StaysLive where
  refl _ := id
  trans hef hfg h := hfg (hef h)
  step := commandStep_staysLive
  stdin _ _ := id
  capture {e f} hkept h := by
    have hcaptured : e.captured.session.Live := ⟨h.screen, h.running⟩
    have hf := hkept hcaptured
    rw [Environment.uncaptured, endCapture_eq]
    exact ⟨hf.screen, hf.running⟩

namespace Terminal

/-! ## Calls -/

/-- A terminal with the built-in commands that runs and is in step with its editor. -/
structure Displaying (t : Terminal) : Prop where
  registry : t.registry = Commands.registry
  live : t.session.Live
  inStep : t.session.InStep

/-- After power on the screen is in step with the editor. -/
theorem powerOn_displaying (settings : Settings) (storage : Storage) (now : Millis)
    (clipboard : Clipboard) (boot : BootSequence) (frames : List Grid) (pauses : List Pause)
    (zone : Calendar.Zone) :
    Displaying (powerOn (ofSettings settings storage now clipboard boot frames pauses zone)) := by
  have hnew : (Session.ofSettings settings frames).screen.Shaped := Screen.ofSize_shaped _ _ _
  unfold powerOn
  split
  · have hbooted := Machine.runBoot_shaped
      (m := (ofSettings settings storage now clipboard boot frames pauses zone).machine) hnew false
    obtain ⟨hlive, hinStep⟩ := Machine.start_live hbooted
    exact ⟨rfl, hlive, hinStep⟩
  · obtain ⟨hlive, hinStep⟩ := Machine.start_live hnew
    exact ⟨rfl, hlive, hinStep⟩

/-- A submitted line leaves the session running, and so the prompt is drawn. -/
theorem Displaying.submit {t : Terminal} (h : t.Displaying) : t.submit.2.Displaying := by
  have hline : t.lineEnvironment.session.Live := by
    rw [session_lineEnvironment]
    exact ⟨h.live.commit.screen, h.live.commit.running⟩
  have hleaves : t.lineEnvironment.StaysLive t.lineLeaves := by
    rw [lineLeaves, h.registry]
    exact Registry.execute_keeps Commands.registry_stepwise _ _
  have hended := hleaves hline
  have hidle : Live { t.lineLeaves.session with busy := false } := ⟨hended.screen, hended.running⟩
  have hregistry := t.registry_submit.trans h.registry
  refine ⟨hregistry, ?_, ?_⟩
  · rw [session_submit hended.running]
    exact hidle.drawPrompt
  · rw [session_submit hended.running]
    exact drawPrompt_inStep hidle.screen

/-- A key that edits the line draws the prompt row anew, or has nothing to change. -/
theorem editKey_inStep {s : Session} (h : s.Live) (hs : s.InStep) (p : KeyPress) :
    (editKey p s).Live ∧ (editKey p s).InStep := by
  rcases editKey_cases p s with heq | ⟨change, heq⟩ | ⟨⟨line?, history⟩, -, heq⟩
  · rw [heq]
    exact ⟨h, hs⟩
  · rw [heq]
    exact ⟨h.edit change, h.edit_inStep change⟩
  · have hbrowsing : Live { s with history } := ⟨h.screen, h.running⟩
    rw [heq]
    cases line? with
    | none => exact ⟨hbrowsing, hs.of_eq rfl rfl rfl⟩
    | some line =>
      exact ⟨hbrowsing.edit (·.replace line.toList), hbrowsing.edit_inStep (·.replace line.toList)⟩

theorem Displaying.press {t : Terminal} (h : t.Displaying) (p : KeyPress) :
    (t.press p).Displaying := by
  have hcleared := h.live.clearScreen
  obtain ⟨hrebooted, hrebootedInStep⟩ := Machine.reboot_live h.live.screen
  obtain ⟨hedited, heditedInStep⟩ := editKey_inStep h.live h.inStep p
  exact press_induction (P := Displaying) p ⟨h.registry, hrebooted, hrebootedInStep⟩ h
    ⟨h.registry, hcleared.drawPrompt, drawPrompt_inStep hcleared.screen⟩ h.submit
    ⟨h.registry, hedited, heditedInStep⟩

/-- Typing leaves the screen in step with the editor, by induction on the text. -/
theorem Displaying.type {t : Terminal} (h : t.Displaying) (text : String) :
    (t.type text).Displaying :=
  type_induction (fun _ p hdisplaying => hdisplaying.press p) h text

theorem Displaying.runLine {t : Terminal} (h : t.Displaying) (line : String) :
    (t.runLine line).2.Displaying := by
  unfold Terminal.runLine
  split
  · exact (h.type line).submit
  · exact h

theorem Displaying.blink {t : Terminal} (h : t.Displaying) : t.blink.Displaying := by
  have hblinked : Live { t.session with caretVisible := !t.session.caretVisible } :=
    ⟨h.live.screen, h.live.running⟩
  have hsession : t.session.blink.Live ∧ t.session.blink.InStep := by
    unfold Session.blink
    split
    · exact ⟨hblinked.renderInput, renderInput_inStep hblinked.screen⟩
    · exact ⟨h.live, h.inStep⟩
  exact ⟨h.registry, hsession.1, hsession.2⟩

/-- Resizing draws the prompt row anew, and so leaves the screen in step with the editor. -/
theorem Displaying.resize {t : Terminal} (h : t.Displaying) (rows cols : Nat) :
    (t.resize rows cols).Displaying := by
  have hresized : (t.session.resize rows cols).Live :=
    ⟨(Screen.Shaped.resize rows cols).present, h.live.running⟩
  have hsession : (t.resize rows cols).session = (t.session.resize rows cols).renderInput :=
    if_pos hresized.running
  refine ⟨h.registry, ?_, ?_⟩
  · rw [hsession]
    exact hresized.renderInput
  · rw [hsession]
    exact renderInput_inStep hresized.screen

/-! ## Every use -/

/-- What a terminal may become by calls in any order, while time passes, the next pause is drawn,
and other programs use the clipboard. -/
inductive Used (start : Terminal) : Terminal → Prop
  | refl : Used start start
  | press {t : Terminal} (h : Used start t) (p : KeyPress) : Used start (t.press p)
  | type {t : Terminal} (h : Used start t) (text : String) : Used start (t.type text)
  | runLine {t : Terminal} (h : Used start t) (line : String) : Used start (t.runLine line).2
  | blink {t : Terminal} (h : Used start t) : Used start t.blink
  | resize {t : Terminal} (h : Used start t) (rows cols : Nat) : Used start (t.resize rows cols)
  | outside {t : Terminal} (h : Used start t) (now : Millis) (jitter : Nat)
      (clipboard : Clipboard) :
      Used start { t with
        jitter, machine := { t.machine with clipboard, files := { t.machine.files with now } } }

/-- However a terminal is used, its screen stays in step with its editor. -/
theorem Used.displaying {start t : Terminal} (h : Used start t) (hstart : start.Displaying) :
    t.Displaying := by
  induction h with
  | refl => exact hstart
  | press _ p ih => exact ih.press p
  | type _ text ih => exact ih.type text
  | runLine _ line ih => exact ih.runLine line
  | blink _ ih => exact ih.blink
  | resize _ rows cols ih => exact ih.resize rows cols
  | outside _ now jitter clipboard ih => exact ⟨ih.registry, ih.live, ih.inStep⟩

/-- However a terminal was set up and used since it was powered on, what was seen last is the grid,
and the row of the prompt shows the prompt, the start of the input and the caret. -/
theorem display_in_step {settings : Settings} {storage : Storage} {now : Millis}
    {clipboard : Clipboard} {boot : BootSequence} {frames : List Grid} {pauses : List Pause}
    {zone : Calendar.Zone} {t : Terminal}
    (h : Used (powerOn (ofSettings settings storage now clipboard boot frames pauses zone)) t) :
    t.session.InStep :=
  (h.displaying (powerOn_displaying settings storage now clipboard boot frames pauses zone)).inStep

/-- Two lines were printed, half a line was typed, and then the screen became smaller than it was:
the prompt stands in the last row, though the next output would come below it. -/
theorem display_in_step_smaller :
    let start := powerOn (ofSettings { rows := 30, cols := 80, boot := false, execDelay := 0 } {} 0
      (.holding none) BootSequence.silent [] [])
    let t := (((start.runLine "about;about;about").2.type "echo a").press { key := .left }).resize 1 1
    Used start t ∧ t.session.outRow = 13 ∧ t.session.screen.rows = 12 ∧
      t.session.screen.shown = t.session.screen.grid ∧
      t.session.screen.grid[11]? = some ("guest@cedar:/$ echo | ".toList ++ List.replicate 18 ' ') := by
  intro start t
  have hused : Used start t := .resize (.press (.type (.runLine .refl _) _) _) 1 1
  have hinStep := display_in_step hused
  refine ⟨hused, by decide +kernel, by decide +kernel, hinStep.seen, ?_⟩
  decide +kernel

end Terminal

end SimTerm
